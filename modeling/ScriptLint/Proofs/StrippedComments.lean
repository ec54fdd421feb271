import ScriptLint.Proofs.DirectiveText

/-!
# Taking out comments

A text is code, string literals and comments one after the other. Taking out comments keeps every literal and leaves
a text without comments: nothing that remains joins to a new one, since a block comment leaves a space and the other
kind ends before a line feed.
-/

namespace ScriptLint.Preprocess

open Text List
open Lexer (opensComment)

/-- The front goes on to where a string ends, or to the end of all. -/
def Spans : Mode → (front rest : List Char) → Prop
  | _, [], rest => rest = []
  | mode, c :: cs, rest => if mode.next c = .code then cs = [] else Spans (mode.next c) cs rest

/-- The front goes on to where a block comment ends, or to the end of all. -/
def Closes : (front rest : List Char) → Prop
  | [], rest => rest = []
  | c :: cs, rest => if c = '*' ∧ cs.head? = some '/' then cs = ['/'] else Closes cs rest

variable {mode : Mode} {front rest other : List Char}

theorem exists_spans (mode : Mode) (cs : List Char) : ∃ front rest, cs = front ++ rest ∧ Spans mode front rest := by
  induction cs generalizing mode with
  | nil => exact ⟨[], [], rfl, rfl⟩
  | cons c cs ih =>
    by_cases ends : mode.next c = .code
    · exact ⟨[c], cs, rfl, by rw [Spans, if_pos ends]⟩
    · obtain ⟨front, rest, rfl, spans⟩ := ih (mode.next c)
      exact ⟨c :: front, rest, rfl, by rwa [Spans, if_neg ends]⟩

theorem Spans.change (spans : Spans mode front rest) (last : rest = [] → other = []) : Spans mode front other := by
  induction front generalizing mode with
  | nil => exact last spans
  | cons _ _ ih =>
    rw [Spans] at spans ⊢
    split at spans
    · rwa [if_pos ‹_›]
    · rw [if_neg ‹_›]
      exact ih spans

theorem strip_spans (inside : mode ≠ .code) (spans : Spans mode front rest) :
    mode.strip (front ++ rest) = front ++ stripComments none rest := by
  induction front generalizing mode with
  | nil =>
    obtain rfl := spans
    cases mode <;> simp [Mode.strip, stripComments]
  | cons c _ ih =>
    rw [cons_append, Mode.strip_cons fun code => absurd code inside]
    refine congrArg (cons c) ?_
    rw [Spans] at spans
    split at spans
    · next ends =>
      rw [spans, ends]
      rfl
    · next goesOn => exact ih goesOn spans

theorem exists_closes (cs : List Char) : ∃ front rest, cs = front ++ rest ∧ Closes front rest := by
  induction cs with
  | nil => exact ⟨[], [], rfl, rfl⟩
  | cons c cs ih =>
    by_cases ends : c = '*' ∧ cs.head? = some '/'
    · obtain ⟨rfl, slash⟩ := ends
      obtain ⟨rest, rfl⟩ := head?_eq_some_iff.mp slash
      exact ⟨['*', '/'], rest, rfl, rfl⟩
    · obtain ⟨front, rest, rfl, closes⟩ := ih
      refine ⟨c :: front, rest, rfl, ?_⟩
      rwa [Closes, if_neg fun both => ends ⟨both.1, by rw [head?_append, both.2]; rfl⟩]

theorem afterComment_closes (closes : Closes front rest) : afterComment (front ++ rest) = rest := by
  induction front with
  | nil =>
    obtain rfl := closes
    rfl
  | cons c cs ih =>
    rw [Closes] at closes
    split at closes
    · next ends =>
      rw [ends.1, closes]
      rfl
    · next goesOn =>
      rw [cons_append, afterComment, ih closes]
      rintro more rfl order
      cases cs with
      | nil =>
        obtain rfl := closes
        cases order
      | cons => exact goesOn ⟨rfl, congrArg some (cons.inj order).1⟩

/-- A stretch of a text: one character of code, a string literal or a comment. -/
inductive Stretch where
  | code (c : Char)
  | literal (quote : Char) (body : List Char)
  | remark (body : List Char)
  | block (body : List Char)

namespace Stretch

def text : Stretch → List Char
  | code c => [c]
  | literal quote body => quote :: body
  | remark body => '/' :: '/' :: body
  | block body => '/' :: '*' :: body

/-- Whether a stretch ends where it has to, given what follows. -/
def Fits : Stretch → (rest : List Char) → Prop
  | code c, rest => isQuote c = false ∧ opensComment (c :: rest) = false
  | literal quote body, rest => isQuote quote = true ∧ Spans (.string quote) body rest
  | remark body, rest => '\n' ∉ body ∧ ∀ c ∈ rest.head?, c = '\n'
  | block body, rest => Closes body rest

def isLiteral : Stretch → Bool
  | literal _ _ => true
  | _ => false

def isComment : Stretch → Bool
  | remark _ => true
  | block _ => true
  | _ => false

/-- What remains of a stretch. -/
def remains? : Stretch → Option Stretch
  | remark _ => none
  | block _ => some (code ' ')
  | stretch => some stretch

end Stretch

open Stretch

/-- A text is made of stretches. -/
inductive Consists : List Char → List Stretch → Prop where
  | nil : Consists [] []
  | cons {stretch : Stretch} {stretches : List Stretch} {rest : List Char} :
    stretch.Fits rest → Consists rest stretches → Consists (stretch.text ++ rest) (stretch :: stretches)

variable {stretches : List Stretch} {text : List Char}

theorem exists_first (c : Char) (cs : List Char) : ∃ stretch rest, c :: cs = Stretch.text stretch ++ rest ∧
    stretch.Fits rest := by
  by_cases quote : isQuote c
  · obtain ⟨front, rest, rfl, spans⟩ := exists_spans (.string c) cs
    exact ⟨.literal c front, rest, rfl, quote, spans⟩
  · cases opens : opensComment (c :: cs) with
    | false => exact ⟨.code c, cs, rfl, Bool.eq_false_iff.mpr quote, opens⟩
    | true =>
      cases cs with
      | nil => cases opens
      | cons second cs =>
        rw [opensComment, Bool.and_eq_true, Bool.or_eq_true, beq_iff_eq, beq_iff_eq, beq_iff_eq] at opens
        obtain ⟨rfl, rfl | rfl⟩ := opens
        · refine ⟨.remark (cs.takeWhile (· != '\n')), cs.dropWhile (· != '\n'), ?_, ?_, ?_⟩
          · exact congrArg (cons '/' ∘ cons '/') takeWhile_append_dropWhile.symm
          · exact fun found => absurd (mem_takeWhile_imp found) (by decide)
          · intro c front
            have stop := head?_dropWhile_not (· != '\n') cs
            rw [front] at stop
            simpa using stop
        · obtain ⟨front, rest, rfl, closes⟩ := exists_closes cs
          exact ⟨.block front, rest, rfl, closes⟩

theorem exists_consists (text : List Char) : ∃ stretches, Consists text stretches := by
  induction length : text.length using Nat.strong_induction_on generalizing text with
  | h _ ih =>
    subst length
    cases text with
    | nil => exact ⟨[], .nil⟩
    | cons c cs =>
      obtain ⟨stretch, rest, order, fits⟩ := exists_first c cs
      have shorter : rest.length < (c :: cs).length := by
        rw [order, length_append]
        cases stretch <;> simp [Stretch.text]
      obtain ⟨stretches, consists⟩ := ih _ shorter rest rfl
      exact ⟨stretch :: stretches, order ▸ .cons fits consists⟩

theorem stripComments_consists (consists : Consists text stretches) :
    stripComments none text = (stretches.filterMap remains?).flatMap Stretch.text := by
  induction consists with
  | nil =>
    rw [stripComments]
    rfl
  | @cons stretch _ rest fits _ ih =>
    cases stretch with
    | code c =>
      have stays : Mode.code.next c = .code := if_neg (Bool.eq_false_iff.mp fits.1)
      have first := @Mode.strip_cons .code _ _ fun _ => fits.2
      rw [stays] at first
      exact first.trans (congrArg (cons c) ih)
    | literal quote body =>
      have opens : Mode.code.next quote = .string quote := if_pos fits.1
      have other : quote ≠ '/' := by
        rintro rfl
        cases fits.1
      have first := @Mode.strip_cons .code _ _ fun _ => Lexer.opensComment_of_ne other (body ++ rest)
      rw [opens, strip_spans Mode.noConfusion fits.2] at first
      exact first.trans (congrArg (fun later => quote :: (body ++ later)) ih)
    | remark body =>
      have ends : (body ++ rest).dropWhile (· != '\n') = rest := by
        rw [dropWhile_append_of_pos fun c found => bne_iff_ne.mpr (ne_of_mem_of_not_mem found fits.1)]
        cases rest with
        | nil => rfl
        | cons c =>
          rw [fits.2 c rfl]
          rfl
      rw [Stretch.text, cons_append, cons_append, stripComments, ends]
      exact ih
    | block body =>
      rw [Stretch.text, cons_append, cons_append, stripComments, afterComment_closes fits]
      exact congrArg (cons ' ') ih

/-- What remains begins as the text did, unless that was a comment. -/
theorem head?_stripped (consists : Consists text stretches) :
    (stripComments none text).head? = text.head? ∨ text.head? = some '/' := by
  rw [stripComments_consists consists]
  cases consists with
  | nil => exact .inl rfl
  | @cons stretch => cases stretch <;> simp [Stretch.text, remains?]

theorem opensComment_stripped {c : Char} (consists : Consists text stretches)
    (plain : opensComment (c :: text) = false) :
    opensComment (c :: stripComments none text) = false := by
  have known (cs : List Char) :
      opensComment (c :: cs) = (c == '/' && (cs.head? == some '/' || cs.head? == some '*')) := by
    cases cs <;> simp [opensComment]
  rw [known] at plain ⊢
  obtain same | slash := head?_stripped consists
  · rwa [same]
  · simp_all

theorem Consists.stripped (consists : Consists text stretches) :
    Consists (stripComments none text) (stretches.filterMap remains?) := by
  rw [stripComments_consists consists]
  induction consists with
  | nil => exact .nil
  | @cons stretch _ rest fits later ih =>
    have known := stripComments_consists later
    cases stretch with
    | code c =>
      have plain := opensComment_stripped later fits.2
      rw [known] at plain
      exact @Consists.cons (.code c) _ _ ⟨fits.1, plain⟩ ih
    | literal quote body =>
      refine @Consists.cons (.literal quote body) _ _ ⟨fits.1, fits.2.change fun last => ?_⟩ ih
      exact known.symm.trans (by rw [last, stripComments])
    | remark => exact ih
    | block => exact @Consists.cons (.code ' ') _ _ ⟨rfl, Lexer.opensComment_of_ne (by decide) _⟩ ih

theorem byteLength_stripped_le (consists : Consists text stretches) :
    byteLength (stripComments none text) ≤ byteLength text := by
  rw [stripComments_consists consists]
  induction consists with
  | nil => exact Nat.le_refl _
  | @cons stretch _ _ _ _ ih =>
    rw [byteLength_append]
    cases stretch with
    | code => exact Nat.add_le_add_left ih _
    | literal => exact (byteLength_append _ _).trans_le (Nat.add_le_add_left ih _)
    | remark => exact Nat.le_add_left_of_le ih
    | block => exact Nat.add_le_add (Nat.le_add_right 1 _) ih

/-- Taking out comments a second time changes nothing, and no text gets longer. What remains holds no comment, and the
same literals in the same order. -/
theorem stripComments_projects (text : List Char) :
    stripComments none (stripComments none text) = stripComments none text ∧
    byteLength (stripComments none text) ≤ byteLength text ∧
    (∃ stretches, Consists text stretches) ∧
    ∀ stretches, Consists text stretches → ∃ remaining, Consists (stripComments none text) remaining ∧
      (∀ stretch ∈ remaining, stretch.isComment = false) ∧ remaining.filter isLiteral = stretches.filter isLiteral := by
  obtain ⟨stretches, consists⟩ := exists_consists text
  refine ⟨?_, byteLength_stripped_le consists, ⟨stretches, consists⟩, ?_⟩
  · have again (stretch : Stretch) : stretch.remains?.bind remains? = stretch.remains? := by cases stretch <;> rfl
    rw [stripComments_consists consists.stripped, filterMap_filterMap, funext again, ← stripComments_consists consists]
  · intro stretches consists
    refine ⟨stretches.filterMap remains?, consists.stripped, ?_, ?_⟩
    · intro stretch found
      obtain ⟨source, _, same⟩ := mem_filterMap.mp found
      cases source <;> cases same <;> rfl
    · rw [filter_filterMap, ← filterMap_eq_filter]
      refine filterMap_congr fun stretch _ => ?_
      cases stretch <;> rfl

/-- In `a/*"*/"//"//b` the quote in the comment begins no literal, and the slashes in the literal no comment. -/
theorem stripComments_projects_mixed :
    Consists ['a', '/', '*', '"', '*', '/', '"', '/', '/', '"', '/', '/', 'b']
      [.code 'a', .block ['"', '*', '/'], .literal '"' ['/', '/', '"'], .remark ['b']] ∧
    ∃ remaining, Consists (stripComments none ['a', '/', '*', '"', '*', '/', '"', '/', '/', '"', '/', '/', 'b'])
      remaining ∧
      (∀ stretch ∈ remaining, stretch.isComment = false) ∧
      remaining.filter isLiteral = [.literal '"' ['/', '/', '"']] :=
  have consists : Consists _ _ :=
    @Consists.cons (.code 'a') _ _ ⟨rfl, rfl⟩ <| @Consists.cons (.block ['"', '*', '/']) _ _ rfl <|
    @Consists.cons (.literal '"' ['/', '/', '"']) _ _ ⟨rfl, rfl⟩ <|
    @Consists.cons (.remark ['b']) _ _ (by simp [Fits]) .nil
  ⟨consists, (stripComments_projects _).2.2.2 _ consists⟩

end ScriptLint.Preprocess
