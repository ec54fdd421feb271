import ScriptLint.Proofs.RunSteps

/-!
# Conditional groups as a tree

The lines of a document whose groups are balanced form a tree: a group has a first branch, further ones with a
condition of their own, and perhaps a last one without. A tree is read by recursion. In active code the conditions
of a group are asked in their order until one of them holds. The branch of that condition is read, and every other
branch is left out as a whole, with all that it contains.

A group that the text does not end is part of a tree too. It reaches to the end of the text, so nothing follows it.
-/

namespace ScriptLint.Preprocess

/-- What a line does to the conditional groups around it. -/
inductive Role where
  | opens
  | elseIf
  | otherwise
  | closes
  /-- A line of text, or a directive that is not about groups. -/
  | plain
  deriving Repr, DecidableEq

def Keyword.role : Keyword → Role
  | .ifTrue | .ifDefined | .ifNotDefined => .opens
  | .elseIf => .elseIf
  | .otherwise => .otherwise
  | .endIf => .closes
  | _ => .plain

/-- Whether a line belongs to a group that was opened before. -/
def Role.goesOn : Role → Bool
  | .elseIf | .otherwise | .closes => true
  | .opens | .plain => false

namespace Line

def directive (line : Line) : Directive := Directive.read line.start line.text

def role (line : Line) : Role :=
  if line.isDirective then line.directive.keyword.role else .plain

end Line

/-! ## Balanced lines -/

/-- Whether every line that goes on with a group has one that is open, and nothing but its end follows the `#else` of
a group. The groups that are open stand innermost first, each with whether it had its `#else`. -/
def balancedWithin : (groups : List Bool) → List Line → Bool
  | _, [] => true
  | groups, line :: rest =>
    match line.role, groups with
    | .plain, groups => balancedWithin groups rest
    | .opens, groups => balancedWithin (false :: groups) rest
    | .elseIf, false :: groups => balancedWithin (false :: groups) rest
    | .otherwise, false :: groups => balancedWithin (true :: groups) rest
    | .closes, _ :: groups => balancedWithin groups rest
    | _, _ => false

/-- Balanced lines; groups may still be open behind the last one. -/
def Balanced (lines : List Line) : Prop := balancedWithin [] lines = true

/-! ## Trees -/

mutual

/-- Lines with groups among them. -/
inductive Block where
  | done
  | line (line : Line) (rest : Block)
  | group (opening : Line) (body : Block) (further : Further) (rest : Block)

/-- How a group goes on behind one of its branches. -/
inductive Further where
  /-- With its `#endif`, or with the end of the text. -/
  | ending (closing : Option Line)
  /-- With its `#else`, which only its end can follow. -/
  | otherwise (line : Line) (body : Block) (closing : Option Line)
  | elseIf (line : Line) (body : Block) (further : Further)

end

mutual

/-- The lines of a tree, from the first to the last. -/
def Block.lines : Block → List Line
  | .done => []
  | .line line rest => line :: rest.lines
  | .group opening body further rest => opening :: (body.lines ++ (further.lines ++ rest.lines))

def Further.lines : Further → List Line
  | .ending closing => closing.toList
  | .otherwise line body closing => line :: (body.lines ++ closing.toList)
  | .elseIf line body further => line :: (body.lines ++ further.lines)

end

def Block.isDone : Block → Bool
  | .done => true
  | _ => false

/-- Whether the text ends right here, inside the group. -/
def Further.isCut : Further → Bool
  | .ending closing => closing.isNone
  | _ => false

/-- A group ends with its `#endif`, or with the text. -/
def EndFits (final : Bool) : Option Line → Prop
  | none => final = true
  | some closing => closing.role = .closes

mutual

/-- Every line stands where its role allows. Only a block that reaches to the end of the text may hold a group without
an end, and then as its last part. -/
def Block.Fits : (final : Bool) → Block → Prop
  | _, .done => True
  | final, .line line rest => line.role = .plain ∧ rest.Fits final
  | final, .group opening body further rest =>
    opening.role = .opens ∧ body.Fits (final && rest.isDone && further.isCut) ∧
      further.Fits (final && rest.isDone) ∧ rest.Fits final

def Further.Fits : (final : Bool) → Further → Prop
  | final, .ending closing => EndFits final closing
  | final, .otherwise line body closing =>
    line.role = .otherwise ∧ body.Fits (final && closing.isNone) ∧ EndFits final closing
  | final, .elseIf line body further =>
    line.role = .elseIf ∧ body.Fits (final && further.isCut) ∧ further.Fits final

end

/-- The block is the tree of some lines. -/
def Block.IsTreeOf (block : Block) (lines : List Line) : Prop :=
  block.Fits true ∧ block.lines = lines

theorem EndFits.final {closing : Option Line} (fits : EndFits false closing) (final : Bool) :
    EndFits final closing := by
  cases closing with
  | none => exact absurd fits Bool.false_ne_true
  | some => exact fits

mutual

/-- What fits in the middle of a text fits at its end. -/
theorem Block.Fits.final : {block : Block} → block.Fits false → (final : Bool) → block.Fits final
  | .done, _, _ => trivial
  | .line _ _, ⟨role, rest⟩, final => ⟨role, rest.final final⟩
  | .group _ _ _ _, ⟨role, body, further, rest⟩, final =>
    ⟨role, Block.Fits.final body _, Further.Fits.final further _, rest.final final⟩

theorem Further.Fits.final :
    {further : Further} → further.Fits false → (final : Bool) → further.Fits final
  | .ending _, fits, final => EndFits.final fits final
  | .otherwise _ _ _, ⟨role, body, ends⟩, final => ⟨role, Block.Fits.final body _, ends.final final⟩
  | .elseIf _ _ _, ⟨role, body, further⟩, final =>
    ⟨role, Block.Fits.final body _, further.final final⟩

end

/-! ## Reading a tree -/

/-- The lines that are no directives. -/
def texts (lines : List Line) : List Line :=
  lines.filter fun line => !line.isDirective

/-- What reading some lines comes to: the run behind them, and the lines of text among them that were left out. -/
structure Reading where
  run : Run
  excluded : List Line

namespace Run

/-- Take in a line of active code that is not about groups. -/
def takeIn (run : Run) (env : Env) (line : Line) : Run :=
  if line.isDirective then run.perform env line.directive else run.addRemark line

/-- Ask the condition that a group begins with. -/
def ask (run : Run) (opening : Directive) : Bool × Run :=
  match opening.keyword with
  | .ifDefined => run.definedness "#ifdef" true opening
  | .ifNotDefined => run.definedness "#ifndef" false opening
  | _ => run.condition "#if" opening

end Run

mutual

/-- Read a block in active code. -/
def Block.read (env : Env) : Block → Run → Reading
  | .done, run => ⟨run, []⟩
  | .line line rest, run => rest.read env (run.takeIn env line)
  | .group opening body further rest, run =>
    let (holds, run) := run.ask opening.directive
    let first := if holds then body.read env run else ⟨run, texts body.lines⟩
    let others := further.read env holds first.run
    let after := rest.read env others.run
    ⟨after.run, first.excluded ++ (others.excluded ++ after.excluded)⟩

/-- Read the rest of a group in active code. Once a branch was taken, no further condition is asked. -/
def Further.read (env : Env) : Further → (taken : Bool) → Run → Reading
  | .ending _, _, run => ⟨run, []⟩
  | .otherwise _ body _, true, run => ⟨run, texts body.lines⟩
  | .otherwise _ body _, false, run => body.read env run
  | .elseIf _ body further, true, run =>
    let others := further.read env true run
    ⟨others.run, texts body.lines ++ others.excluded⟩
  | .elseIf line body further, false, run =>
    let (holds, run) := run.condition "#elif" line.directive
    let own := if holds then body.read env run else ⟨run, texts body.lines⟩
    let others := further.read env holds own.run
    ⟨others.run, own.excluded ++ others.excluded⟩

end

def Further.isClosed : Further → Bool
  | .ending closing => closing.isSome
  | .otherwise _ _ closing => closing.isSome
  | .elseIf _ _ further => further.isClosed

mutual

/-- Where the groups begin that have no end, the outermost first. -/
def Block.unclosed : Block → List Span
  | .done => []
  | .line _ rest => rest.unclosed
  | .group opening body further rest =>
    (if further.isClosed then [] else [opening.directive.span]) ++
      (body.unclosed ++ (further.unclosed ++ rest.unclosed))

def Further.unclosed : Further → List Span
  | .ending _ => []
  | .otherwise _ body _ => body.unclosed
  | .elseIf _ body further => body.unclosed ++ further.unclosed

end

/-- Read the tree of a whole text that starts with some definitions. -/
def Block.readText (block : Block) (env : Env) (predefined : Macro.Table) (cache : IncludeCache) : Reading :=
  block.read env { result := { macros := predefined }, cache }

/-- Report groups without an end by the places where they begin. -/
def Run.reportUnclosed (run : Run) (places : List Span) : Run :=
  places.foldl (fun run place => run.report .unclosedGroup place) run

/-- What preprocessing gives by a reading, disabled ranges apart. Groups without an end are reported last. -/
def Reading.result (reading : Reading) (unclosed : List Span) : Preprocessed :=
  let reported := (reading.run.reportUnclosed unclosed).result
  { reported with suppressions := reported.suppressions.finish }

/-! ## Balanced lines have a tree -/

/-- The lines behind a block: none, or first one that goes on with a group around it. -/
def Block.StopsAt (block : Block) : List Line → Prop
  | [] => block.Fits true
  | next :: _ => next.role.goesOn = true ∧ block.Fits false

/-- The lines behind a group: none, if the text cuts it off. -/
def Further.StopsAt (further : Further) (after : List Line) : Prop :=
  further.Fits false ∨ after = [] ∧ further.Fits true

/-- A block at the front of some lines. -/
def HasBlock (lines : List Line) : Prop :=
  ∀ groups, balancedWithin groups lines = true →
    ∃ (block : Block) (after : List Line),
      lines = block.lines ++ after ∧ balancedWithin groups after = true ∧ block.StopsAt after

/-- The rest of a group at the front of some lines, behind one of its branches. -/
def HasFurther (lines : List Line) : Prop :=
  ∀ groups, balancedWithin (false :: groups) lines = true →
    (∀ line ∈ lines.head?, line.role.goesOn = true) →
    ∃ (further : Further) (after : List Line),
      lines = further.lines ++ after ∧ balancedWithin groups after = true ∧ further.StopsAt after

section Shorter

variable {line : Line} {rest : List Line} (block : ∀ shorter, shorter.length ≤ rest.length → HasBlock shorter)
  (further : ∀ shorter, shorter.length ≤ rest.length → HasFurther shorter)

include block further

/-- A branch and the rest of its group. Where the text cuts the group off, nothing is behind it. -/
theorem exists_branch {groups : List Bool} (balanced : balancedWithin (false :: groups) rest) :
    ∃ (body : Block) (others : Further) (after : List Line),
      rest = body.lines ++ (others.lines ++ after) ∧ balancedWithin groups after ∧
        (body.Fits false ∧ others.Fits false ∨ after = [] ∧ body.Fits others.isCut ∧ others.Fits true) := by
  obtain ⟨body, behind, split, balancedBehind, stops⟩ := block rest (Nat.le_refl _) (false :: groups) balanced
  cases behind with
  | nil => exact ⟨body, .ending none, [], split, rfl, .inr ⟨rfl, stops, rfl⟩⟩
  | cons next behind =>
    have shorter : (next :: behind).length ≤ rest.length := by simp [split]
    obtain ⟨others, after, splitBehind, balancedAfter, fits⟩ :=
      further (next :: behind) shorter groups balancedBehind (by simpa using stops.1)
    refine ⟨body, others, after, by rw [split, splitBehind], balancedAfter, ?_⟩
    rcases fits with closed | ⟨rfl, cut⟩
    · exact .inl ⟨stops.2, closed⟩
    · exact .inr ⟨rfl, stops.2.final _, cut⟩

theorem hasBlock_of_shorter : HasBlock (line :: rest) := by
  intro groups balanced
  cases role : line.role with
  | plain =>
    have balancedRest : balancedWithin groups rest := by simpa [balancedWithin, role] using balanced
    obtain ⟨tail, after, split, balancedAfter, stops⟩ := block rest (Nat.le_refl _) groups balancedRest
    refine ⟨.line line tail, after, by simp [Block.lines, split], balancedAfter, ?_⟩
    cases after with
    | nil => exact ⟨role, stops⟩
    | cons => exact ⟨stops.1, role, stops.2⟩
  | opens =>
    have balancedRest : balancedWithin (false :: groups) rest := by
      simpa [balancedWithin, role] using balanced
    obtain ⟨body, others, behind, split, balancedBehind, fits⟩ := exists_branch block further balancedRest
    have shorter : behind.length ≤ rest.length := by
      rw [split]
      simp
      omega
    obtain ⟨tail, last, splitBehind, balancedLast, stops⟩ := block behind shorter groups balancedBehind
    refine ⟨.group line body others tail, last, by simp [Block.lines, split, splitBehind], balancedLast, ?_⟩
    rcases fits with ⟨inside, closed⟩ | ⟨rfl, inside, cut⟩
    · cases last with
      | nil => exact ⟨role, inside.final _, closed.final _, stops⟩
      | cons => exact ⟨stops.1, role, inside.final _, closed.final _, stops.2⟩
    · obtain ⟨noLines, rfl⟩ : tail.lines = [] ∧ last = [] := by simpa using splitBehind.symm
      cases tail with
      | done => exact ⟨role, inside, cut, trivial⟩
      | line => simp [Block.lines] at noLines
      | group => simp [Block.lines] at noLines
  | elseIf | otherwise | closes =>
    exact ⟨.done, line :: rest, rfl, balanced, by simp [role, Role.goesOn], trivial⟩

theorem hasFurther_of_shorter : HasFurther (line :: rest) := by
  intro groups balanced goesOn
  have goesOn := goesOn line rfl
  cases role : line.role with
  | plain | opens => simp [role, Role.goesOn] at goesOn
  | closes =>
    refine ⟨.ending (some line), rest, rfl, ?_, .inl role⟩
    simpa [balancedWithin, role] using balanced
  | otherwise =>
    have balancedRest : balancedWithin (true :: groups) rest := by
      simpa [balancedWithin, role] using balanced
    obtain ⟨body, behind, split, balancedBehind, stops⟩ :=
      block rest (Nat.le_refl _) (true :: groups) balancedRest
    cases behind with
    | nil =>
      refine ⟨.otherwise line body none, [], ?_, rfl, .inr ⟨rfl, role, stops, rfl⟩⟩
      simp [Further.lines, split]
    | cons next behind =>
      -- Behind an `#else` nothing but the end of its group is balanced.
      have closes : next.role = .closes ∧ balancedWithin groups behind := by
        cases nextRole : next.role <;> simp_all [balancedWithin, Block.StopsAt, Role.goesOn]
      refine ⟨.otherwise line body (some next), behind, ?_, closes.2,
        .inl ⟨role, stops.2, closes.1⟩⟩
      simp [Further.lines, split]
  | elseIf =>
    have balancedRest : balancedWithin (false :: groups) rest := by
      simpa [balancedWithin, role] using balanced
    obtain ⟨body, others, after, split, balancedAfter, fits⟩ := exists_branch block further balancedRest
    refine ⟨.elseIf line body others, after, by simp [Further.lines, split], balancedAfter, ?_⟩
    rcases fits with ⟨inside, closed⟩ | ⟨rfl, inside, cut⟩
    · exact .inl ⟨role, inside, closed⟩
    · exact .inr ⟨rfl, role, inside, cut⟩

end Shorter

theorem hasBlock_and_hasFurther (bound : Nat) : ∀ lines, lines.length ≤ bound → HasBlock lines ∧ HasFurther lines := by
  induction bound with
  | zero =>
    intro lines empty
    obtain rfl : lines = [] := List.length_eq_zero_iff.mp (Nat.le_zero.mp empty)
    exact ⟨fun _ _ => ⟨.done, [], rfl, rfl, trivial⟩,
      fun _ _ _ => ⟨.ending none, [], rfl, rfl, .inr ⟨rfl, rfl⟩⟩⟩
  | succ bound ih =>
    intro lines short
    cases lines with
    | nil => exact ih [] (Nat.zero_le _)
    | cons _ rest =>
      have within : ∀ shorter : List Line, shorter.length ≤ rest.length → shorter.length ≤ bound := by
        simp only [List.length_cons] at short
        omega
      have block shorter le := (ih shorter (within shorter le)).1
      have further shorter le := (ih shorter (within shorter le)).2
      exact ⟨hasBlock_of_shorter block further, hasFurther_of_shorter block further⟩

/-- Balanced lines have a tree. -/
theorem Balanced.exists_tree {lines : List Line} (balanced : Balanced lines) :
    ∃ block : Block, block.IsTreeOf lines := by
  obtain ⟨block, after, split, balancedAfter, stops⟩ :=
    (hasBlock_and_hasFurther lines.length lines (Nat.le_refl _)).1 [] balanced
  cases after with
  | nil => exact ⟨block, stops, by simp [split]⟩
  | cons line =>
    -- Outside every group there is none to go on with.
    cases role : line.role <;> simp_all [balancedWithin, Block.StopsAt, Role.goesOn]

end ScriptLint.Preprocess
