import ScriptLint.Proofs.ExprSteps

/-!
# Recursion that ends

The readers of the analysis are cut off at a number of rounds or levels that is never reached. What that means is said
for one round of a reader: the rounds behind it begin with fewer tokens left, and no round goes back. A recursion of
this kind has one solution, which is the reader without its cut-off.
-/

namespace ScriptLint.Analysis

open List

/-! ## One round -/

variable {α β : Type}

/-- From a state two scans do the same, and do not go back. -/
structure Alike (first other : Scan α) (state : State) : Prop where
  same : first.run state = other.run state
  forward : (first.run state).2.rest <:+ state.rest

/-- Two functions are alike wherever fewer tokens are left than some number. -/
def AlikeBelow (bound : Nat) (call other : α → Scan β) : Prop :=
  ∀ value state, state.rest.length < bound → Alike (call value) (other value) state

/-- One round of a recursion, given what does the rounds behind it: these begin with fewer tokens left. -/
def Descends (round : (α → Scan β) → α → Scan β) : Prop :=
  ∀ (call other : α → Scan β) (state : State), AlikeBelow state.rest.length call other →
    ∀ value, Alike (round call value) (round other value) state

/-- A recursion ends: it goes down with each round and never back, and just one function solves it. -/
structure Terminates (round : (α → Scan β) → α → Scan β) (function : α → Scan β) : Prop where
  descends : Descends round
  forward : ∀ value state, ((function value).run state).2.rest <:+ state.rest
  solves : ∀ other : α → Scan β, (∀ value, other value = round other value) ↔ other = function

/-- A recursion that is cut off after as many rounds as there are tokens left, and one more. -/
def uncut (rounds : Nat → α → Scan β) (value : α) : Scan β := do
  rounds ((← remaining) + 1) value

section Rounds

variable {round : (α → Scan β) → α → Scan β} {rounds : Nat → α → Scan β}

/-- How many rounds there may be does not matter, as long as there are more than tokens. -/
theorem alike_rounds (step : ∀ limit, rounds (limit + 1) = round (rounds limit)) (descends : Descends round)
    {limit more : Nat} {state : State} (enough : state.rest.length < limit) (enoughMore : state.rest.length < more)
    (value : α) : Alike (rounds limit value) (rounds more value) state := by
  induction limit generalizing more state value with
  | zero => exact absurd enough (Nat.not_lt_zero _)
  | succ _ ih =>
    cases more with
    | zero => exact absurd enoughMore (Nat.not_lt_zero _)
    | succ =>
      rw [step, step]
      exact descends _ _ _ (fun value later fewer => ih (by omega) (by omega) value) value

theorem Descends.terminates (descends : Descends round) (step : ∀ limit, rounds (limit + 1) = round (rounds limit)) :
    Terminates round (uncut rounds) := by
  have levels {limit : Nat} {state : State} (enough : state.rest.length < limit) (value : α) :
      Alike (rounds limit value) (uncut rounds value) state :=
    have alike := alike_rounds step descends enough (Nat.lt_succ_self _) value
    ⟨alike.same, alike.forward⟩
  have unfolds (value : α) : uncut rounds value = round (uncut rounds) value := by
    funext state
    have alike := descends (rounds state.rest.length) (uncut rounds) state
      (fun value later fewer => levels fewer value) value
    rw [← step] at alike
    exact alike.same
  refine ⟨descends, fun value state => (levels (Nat.lt_succ_self _) value).forward, fun other => ⟨fun solves => ?_, ?_⟩⟩
  · -- Both solutions are equal, by induction on the number of tokens.
    have equal (count : Nat) : ∀ state, state.rest.length < count → ∀ value,
        Alike (uncut rounds value) (other value) state := by
      induction count with
      | zero => exact fun state fewer => absurd fewer (Nat.not_lt_zero _)
      | succ _ ih =>
        intro state fewer value
        rw [unfolds, solves]
        exact descends _ _ _ (fun value later shorter => ih later (by omega) value) value
    funext value state
    exact (equal _ state (Nat.lt_succ_self _) value).same.symm
  · rintro rfl value
    exact unfolds value

end Rounds

/-! ## Expressions descend -/

/-- Tokens are only dropped from the front. -/
def Forward (before after : State) : Prop := after.rest <:+ before.rest

theorem Agree.alike {first other : Scan α} {state : State} (agree : AgreeBy Forward first other state) :
    Alike first other state :=
  ⟨agree.same, agree.holds⟩

theorem AlikeBelow.agree {bound : Nat} {call other : α → Scan β} (below : AlikeBelow bound call other) :
    AgreeBelow Forward bound call other :=
  fun value state fewer => ⟨(below value state fewer).same, (below value state fewer).forward⟩

/-- A parenthesis is not read twice. -/
theorem Leaves.forward {before after : State} (leaves : Leaves Forward before after) : Forward before after := by
  cases leaves with
  | closed inner _ _ | broken inner _ _ => exact (drop_suffix ..).trans inner

theorem forward_passage : Passage Forward where
  refl _ := suffix_rfl
  trans first second := List.IsSuffix.trans second first
  forward passed := passed
  part _ _ := drop_suffix ..
  group _ _ leaves := List.IsSuffix.trans leaves.forward (drop_suffix ..)
  report _ := suffix_rfl
  refer _ _ inner _ := List.IsSuffix.trans inner (drop_suffix ..)
  record _ _ := suffix_rfl

/-! ## Expressions end -/

/-- Read an expression of at least some strength, without a bound on its depth. -/
def exprFrom (env : Env) : Reader := uncut (readExprWithin env)

theorem exprFrom_terminates (env : Env) : Terminates (exprRound env) (exprFrom env) :=
  Descends.terminates (fun _ _ _ calls least => (exprRound_agree forward_passage env calls.agree least).alike)
    (readExprWithin_succ env)

section Loops

variable (env : Env)

theorem exprFrom_agree (bound : Nat) : AgreeBelow Forward bound (exprFrom env) (exprFrom env) :=
  fun least state _ => ⟨rfl, (exprFrom_terminates env).forward least state⟩

theorem args_terminate :
    Terminates (argsRound (exprFrom env)) (uncut fun limit _ => readArgs (exprFrom env) limit) := by
  refine Descends.terminates (fun call other state calls value => Agree.alike ?_) fun _ => rfl
  refine argsRound_agree forward_passage (exprFrom_agree env _) (Nat.le_refl _) (fun after fewer passed => ?_)
    (fun after leaves => leaves.forward) value
  exact (calls.agree () after fewer).mono fun _ _ more => List.IsSuffix.trans more passed

theorem components_terminate :
    Terminates (componentsRound (exprFrom env)) (uncut fun limit _ => readComponents (exprFrom env) limit) :=
  Descends.terminates (fun _ _ _ calls value =>
      (componentsRound_agree forward_passage (exprFrom_agree env _) (Nat.le_refl _) calls.agree value).alike)
    fun _ => rfl

theorem elements_terminate :
    Terminates (elementsRound (exprFrom env)) (uncut fun limit _ => readElements (exprFrom env) limit) :=
  Descends.terminates (fun _ _ _ calls value =>
      (elementsRound_agree forward_passage (exprFrom_agree env _) (Nat.le_refl _) calls.agree value).alike)
    fun _ => rfl

theorem members_terminate : Terminates membersRound (uncut readMembers) :=
  Descends.terminates (fun _ _ _ calls base => (membersRound_agree forward_passage calls.agree base).alike)
    readMembers_succ

theorem climb_terminates (least : Nat) :
    Terminates (climbRound (exprFrom env) least) (uncut (climb (exprFrom env) least)) :=
  Descends.terminates (fun _ _ _ calls left =>
      (climbRound_agree forward_passage least (exprFrom_agree env _) (Nat.le_refl _) calls.agree left).alike)
    (climb_succ (exprFrom env) least)

end Loops

end ScriptLint.Analysis
