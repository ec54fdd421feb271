import Mathlib.Data.List.Forall2
import ScriptLint.Analysis.Lookup

/-!
# Checking calls

A built-in function may have several signatures. The first one that takes all arguments decides a call. If there is
none, the first signature of the right length is at fault with the first argument that it refuses, and if no signature
has that length, the number of arguments is. So a call gives one finding or none.

A function-like definition is checked by the number of arguments alone. That check and the expansion of the same call
agree, except about a call without arguments where one is asked for: the expansion puts nothing in its place.
-/

namespace ScriptLint

open List

/-- There is one argument for each parameter, and each is accepted. -/
def Signature.Takes (signature : Signature) (args : List Analysis.Typed) : Prop :=
  List.Forall₂ (fun param arg => param.type.accepts arg.type = true) signature.params args

namespace Analysis

/-! ## The first of a list -/

/-- The first item with a property. -/
def IsFirst {α : Type} (property : α → Prop) (items : List α) (item : α) : Prop :=
  property item ∧ ∃ before after, items = before ++ item :: after ∧ ∀ earlier ∈ before, ¬property earlier

theorem isFirst_of_find? {α : Type} {property : α → Prop} {test : α → Bool}
    (tests : ∀ item, test item ↔ property item) {items : List α} {item : α}
    (found : items.find? test = some item) : IsFirst property items item := by
  obtain ⟨passes, before, after, whole, fails⟩ := find?_eq_some_iff_append.mp found
  refine ⟨(tests item).mp passes, before, after, whole, ?_⟩
  intro earlier held has
  have failed := fails earlier held
  rw [(tests earlier).mpr has] at failed
  cases failed

/-- An argument is the first one that its parameter refuses; it has some others in front of it. -/
def FirstRefused (params : List Param) (args : List Typed) (index : Nat) (param : Param) (arg : Typed) : Prop :=
  param.type.accepts arg.type = false ∧ ∃ before after front back,
    params = before ++ param :: after ∧ args = front ++ arg :: back ∧ front.length = index ∧
      List.Forall₂ (fun param arg => param.type.accepts arg.type = true) before front

variable {args : List Typed}

theorem FirstRefused.cons {params : List Param} {index : Nat} {param first : Param}
    {arg given : Typed} (refused : FirstRefused params args index param arg)
    (accepted : first.type.accepts given.type) :
    FirstRefused (first :: params) (given :: args) (index + 1) param arg := by
  obtain ⟨refuses, before, after, front, back, rfl, rfl, rfl, accepts⟩ := refused
  exact ⟨refuses, first :: before, after, given :: front, back, rfl, rfl, rfl, .cons accepted accepts⟩

/-- The search for a mismatch ends at the first argument that is refused. With as many arguments as parameters it finds
one unless all of them are accepted. -/
theorem firstMismatch_cases (start : Nat) {params : List Param}
    (sameLength : params.length = args.length) :
    List.Forall₂ (fun param arg => param.type.accepts arg.type) params args ∨
      ∃ index param arg, firstMismatch start params args = some (start + index, param, arg) ∧
        FirstRefused params args index param arg := by
  induction params generalizing start args with
  | nil =>
    obtain rfl : args = [] := length_eq_zero_iff.mp sameLength.symm
    exact .inl .nil
  | cons first params ih =>
    cases args with
    | nil => cases sameLength
    | cons given args =>
      cases accepted : first.type.accepts given.type with
      | false =>
        right
        refine ⟨0, first, given, ?_, accepted, [], params, [], args, rfl, rfl, rfl, .nil⟩
        simp [firstMismatch, accepted]
      | true =>
        rcases ih (start + 1) (Nat.succ.inj sameLength) with all | ⟨index, param, arg, found, refused⟩
        · exact .inl (.cons accepted all)
        · right
          refine ⟨index + 1, param, arg, ?_, refused.cons accepted⟩
          rw [firstMismatch, if_pos accepted, found, Nat.add_assoc, Nat.add_comm 1 index]

theorem fits_iff (args : List Typed) (signature : Signature) : fits args signature ↔ signature.Takes args := by
  simp only [fits, Signature.Takes, forall₂_iff_zip, Bool.and_eq_true, beq_iff_eq, all_eq_true, Prod.forall]

instance (signature : Signature) (args : List Typed) : Decidable (signature.Takes args) :=
  decidable_of_iff _ (fits_iff args signature)

/-! ## Built-in functions -/

theorem checkArgs_of_refused (span : Span) (callee : String) {params : List Param}
    (sameLength : params.length = args.length)
    (refuses : ¬List.Forall₂ (fun param arg => param.type.accepts arg.type) params args) :
    ∃ index param arg, FirstRefused params args index param arg ∧
      checkArgs span callee params args =
        some ⟨.argument (index + 1) callee param.name param.type arg.type, arg.span⟩ := by
  rcases firstMismatch_cases 1 sameLength with all | ⟨index, param, arg, found, refused⟩
  · exact absurd all refuses
  · refine ⟨index, param, arg, refused, ?_⟩
    simp [checkArgs, sameLength, found, Nat.add_comm]

section Signatures

variable {signatures : List Signature} {args : List Typed} (span : Span) (callee : String)

theorem checkSignatures_of_takes (fitting : ∃ signature ∈ signatures, signature.Takes args) :
    ∃ signature, IsFirst (·.Takes args) signatures signature ∧
      checkSignatures span callee signatures args = (none, signature.returns) := by
  obtain ⟨signature, held, takes⟩ := fitting
  have isSome := find?_isSome.mpr ⟨signature, held, (fits_iff args signature).mpr takes⟩
  obtain ⟨first, found⟩ := Option.isSome_iff_exists.mp isSome
  refine ⟨first, isFirst_of_find? (fits_iff args) found, ?_⟩
  simp [checkSignatures, found]

theorem find?_fits_eq_none (unfitting : ∀ signature ∈ signatures, ¬signature.Takes args) :
    signatures.find? (fits args) = none := by
  apply find?_eq_none.mpr
  intro signature held fitting
  exact unfitting signature held ((fits_iff args signature).mp fitting)

theorem checkSignatures_of_lengths (others : ∀ signature ∈ signatures, signature.params.length ≠ args.length) :
    checkSignatures span callee signatures args =
      (some ⟨.arity callee (" or ".intercalate ((arities signatures).map toString)) args.length, span⟩,
        (signatures.head?.map Signature.returns).getD .any) := by
  have unfitting : signatures.find? (fits args) = none := by
    apply find?_fits_eq_none
    intro signature held takes
    exact others signature held takes.length_eq
  have absent : (signatures.find? fun signature => signature.params.length == args.length) = none := by
    apply find?_eq_none.mpr
    intro signature held same
    exact others signature held (beq_iff_eq.mp same)
  simp only [checkSignatures, unfitting, absent]

theorem checkSignatures_of_refused (unfitting : ∀ signature ∈ signatures, ¬signature.Takes args)
    (sameLength : ∃ signature ∈ signatures, signature.params.length = args.length) :
    ∃ signature, IsFirst (·.params.length = args.length) signatures signature ∧
      ∃ index param arg, FirstRefused signature.params args index param arg ∧
        checkSignatures span callee signatures args =
          (some ⟨.argument (index + 1) callee param.name param.type arg.type, arg.span⟩, signature.returns) := by
  obtain ⟨signature, held, same⟩ := sameLength
  have isSome : (signatures.find? fun signature => signature.params.length == args.length).isSome :=
    find?_isSome.mpr ⟨signature, held, beq_iff_eq.mpr same⟩
  obtain ⟨first, found⟩ := Option.isSome_iff_exists.mp isSome
  have firstSame : first.params.length = args.length := by simpa using find?_some found
  have refuses := unfitting first (mem_of_find?_eq_some found)
  obtain ⟨index, param, arg, refused, checked⟩ := checkArgs_of_refused span callee firstSame refuses
  refine ⟨first, isFirst_of_find? (fun _ => beq_iff_eq) found, index, param, arg, refused, ?_⟩
  simp only [checkSignatures, find?_fits_eq_none unfitting, found, checked]

end Signatures

/-- A call of a built-in function comes out in one of three ways. If some signature takes the arguments, nothing is
found and the first such signature gives the type. If no signature has as many parameters, the number of arguments is
found to be wrong and the main signature gives the type. In all other cases the first signature with as many parameters
gives the type, and the first argument that it refuses is found to be wrong. -/
theorem checkSignatures_trichotomy {definitions : Definitions} {callee : String} {entry : FunctionEntry}
    (known : definitions.functions.get? callee = some entry) (span : Span) (args : List Typed) (state : State) :
    let signatures := entry.signature :: entry.overloads
    let outcome := checkSignatures span callee (definitions.signatures callee) args
    let after := ((note outcome.1).run state).2
    ((∃ signature ∈ signatures, signature.Takes args) →
      ∃ signature, IsFirst (·.Takes args) signatures signature ∧ outcome.2 = signature.returns ∧
        after.findings = state.findings) ∧
    ((∀ signature ∈ signatures, signature.params.length ≠ args.length) →
      outcome.2 = entry.signature.returns ∧
        ∃ finding, after.findings = state.findings.push finding ∧ finding.problem.code = .wrongArity ∧
          finding.span = span) ∧
    ((∀ signature ∈ signatures, ¬signature.Takes args) →
      (∃ signature ∈ signatures, signature.params.length = args.length) →
      ∃ signature, IsFirst (·.params.length = args.length) signatures signature ∧ outcome.2 = signature.returns ∧
        ∃ index param arg, FirstRefused signature.params args index param arg ∧
          ∃ finding, after.findings = state.findings.push finding ∧ finding.problem.code = .wrongType ∧
            finding.span = arg.span) := by
  intro signatures outcome after
  have listed : definitions.signatures callee = signatures := by simp [Definitions.signatures, known, signatures]
  have checked : checkSignatures span callee signatures args = outcome := by simp [outcome, listed]
  have reported {finding : Finding} (found : outcome.1 = some finding) :
      after.findings = state.findings.push finding := by
    simp only [after, found]
    rfl
  refine ⟨?_, ?_, ?_⟩
  · intro fitting
    obtain ⟨signature, first, found⟩ := checkSignatures_of_takes span callee fitting
    rw [checked] at found
    refine ⟨signature, first, congrArg Prod.snd found, ?_⟩
    simp only [after, found]
    rfl
  · intro others
    have found := checkSignatures_of_lengths span callee others
    rw [checked] at found
    exact ⟨congrArg Prod.snd found, _, reported (congrArg Prod.fst found), rfl, rfl⟩
  · intro unfitting sameLength
    obtain ⟨signature, first, index, param, arg, refused, found⟩ :=
      checkSignatures_of_refused span callee unfitting sameLength
    rw [checked] at found
    refine ⟨signature, first, congrArg Prod.snd found, index, param, arg, refused, ?_⟩
    exact ⟨_, reported (congrArg Prod.fst found), rfl, rfl⟩

/-- A function with three signatures, two of which have one parameter. -/
def pickEntry : FunctionEntry :=
  { signature := ⟨.string, [⟨"a", .string⟩]⟩
    overloads := [⟨.integer, [⟨"n", .integer⟩]⟩, ⟨.list, [⟨"a", .string⟩, ⟨"n", .integer⟩]⟩] }

theorem checkSignatures_trichotomy_pick :
    let definitions : Definitions := { functions := .ofList [("llPick", pickEntry)] }
    let signatures := pickEntry.signature :: pickEntry.overloads
    let args : List Typed := [{ type := .vector, span := ⟨7, 16⟩ }]
    let outcome := checkSignatures ⟨0, 6⟩ "llPick" (definitions.signatures "llPick") args
    definitions.functions.get? "llPick" = some pickEntry ∧
      (∀ signature ∈ signatures, ¬signature.Takes args) ∧
      (∃ signature ∈ signatures, signature.params.length = args.length) ∧
      ∀ state : State, ∃ signature, IsFirst (·.params.length = args.length) signatures signature ∧
        outcome.2 = signature.returns ∧ ∃ index param arg, FirstRefused signature.params args index param arg ∧
          ∃ finding, ((note outcome.1).run state).2.findings = state.findings.push finding ∧
            finding.problem.code = .wrongType ∧ finding.span = arg.span := by
  intro definitions signatures args outcome
  have known : definitions.functions.get? "llPick" = some pickEntry := by decide
  have unfitting : ∀ signature ∈ signatures, ¬signature.Takes args := by decide
  have sameLength : ∃ signature ∈ signatures, signature.params.length = args.length := by decide
  refine ⟨known, unfitting, sameLength, fun state => ?_⟩
  exact (checkSignatures_trichotomy known ⟨0, 6⟩ args state).2.2 unfitting sameLength

end Analysis

/-! ## Function-like definitions -/

namespace Macro

/-- A call passes nothing to the only parameter of a definition. -/
def Definition.LeavesOut (definition : Definition) (count : Nat) : Prop :=
  count = 0 ∧ ∃ param body, definition = .function [param] false body

/-- Expansion refuses a call when the number of arguments does not fit, unless the one argument is left out. -/
theorem Definition.invoke?_eq_none_iff {definition : Definition} (isFunction : definition.isFunction)
    (texts : List String) :
    definition.invoke? texts = none ↔
      definition.acceptsArity texts.length = false ∧ ¬definition.LeavesOut texts.length := by
  cases definition with
  | object => cases isFunction
  | function params variadic body =>
    have leavesOut : (Definition.function params variadic body).LeavesOut texts.length ↔
        (texts.isEmpty && params.length == 1 && !variadic) := by
      simp [LeavesOut, length_eq_one_iff, and_assoc]
    simp [invoke?, leavesOut]

theorem Definition.LeavesOut.refused {definition : Definition} {count : Nat} (leavesOut : definition.LeavesOut count) :
    definition.acceptsArity count = false := by
  obtain ⟨rfl, param, body, rfl⟩ := leavesOut
  rfl

end Macro

namespace Analysis

/-- What is called by a name is a function-like definition: no function goes by that name, be it the document's own,
built in or included. -/
structure CallsDefinition (env : Env) (state : State) (callee : String) (definition : Macro.Definition) : Prop where
  noOwn : state.function? callee = none
  noBuiltin : env.definitions.functions.contains callee = false
  noIncluded : env.pre.includedFunction? callee = none
  defined : (env.pre.macros.get? callee).map Macro.definition = some definition
  isFunction : definition.isFunction = true

/-- How a call comes to a callee: by its own name, or by a name that nothing is called by and that stands for it. -/
inductive Leads (env : Env) (state : State) : (word callee : String) → Prop where
  | itself (callee : String) : Leads env state callee callee
  | standing {word callee : String} (unknown : ∀ span args, checkCallee? env state span word args = none)
      (stands : alias? env word = some callee) : Leads env state word callee

section Definitions

variable {env : Env} {state : State} {word callee : String} {definition : Macro.Definition}

variable (calls : CallsDefinition env state callee definition)

include calls

theorem checkCallee?_of_callsDefinition (span : Span)
    (args : List Typed) :
    checkCallee? env state span callee args =
      some ⟨.defined callee, .any, checkDefinition span callee definition args⟩ := by
  obtain ⟨noOwn, noBuiltin, noIncluded, defined, isFunction⟩ := calls
  obtain ⟨entry, found, rfl⟩ := Option.map_eq_some_iff.mp defined
  simp [checkCallee?, noOwn, noBuiltin, noIncluded, found, Option.filter, isFunction]

/-- A call that comes to a function-like definition is found wrong as the definition says. -/
theorem finding_of_leads (leads : Leads env state word callee)
    (span : Span) (args : List Typed) :
    (checkCall env state span word args).finding = checkDefinition span callee definition args := by
  have checked := checkCallee?_of_callsDefinition calls span args
  cases leads with
  | itself => simp [checkCall, checked]
  | standing unknown stands => simp [checkCall, unknown, stands, checked]

theorem invoke?_of_callsDefinition (texts : List String) :
    env.pre.macros.invoke? callee texts = definition.invoke? texts := by
  obtain ⟨entry, found, rfl⟩ := Option.map_eq_some_iff.mp calls.defined
  simp [Macro.Table.invoke?, found]

/-- A call of a function-like definition, by its name or by one that stands for it, is found to have the wrong number
of arguments exactly when the expansion refuses that many, or when it leaves out the only argument. -/
theorem checkCall_wrongArity_iff
    (leads : Leads env state word callee) (span : Span) {args : List Typed} {texts : List String}
    (sameLength : texts.length = args.length) :
    (∃ finding, (checkCall env state span word args).finding = some finding ∧ finding.problem.code = .wrongArity) ↔
      env.pre.macros.invoke? callee texts = none ∨ definition.LeavesOut args.length := by
  have reported : (∃ finding, checkDefinition span callee definition args = some finding ∧
      finding.problem.code = .wrongArity) ↔ definition.acceptsArity args.length = false := by
    rw [checkDefinition]
    cases definition.acceptsArity args.length with
    | false => simp [Problem.code]
    | true => simp
  rw [finding_of_leads calls leads, reported, invoke?_of_callsDefinition calls,
    Macro.Definition.invoke?_eq_none_iff calls.isFunction, sameLength]
  constructor
  · intro refused
    by_cases leavesOut : definition.LeavesOut args.length
    · exact .inr leavesOut
    · exact .inl ⟨refused, leavesOut⟩
  · rintro (⟨refused, _⟩ | leavesOut)
    · exact refused
    · exact leavesOut.refused

end Definitions

/-- A document that defines `ONE` and `LOG` with parameters, and `SAY` to stand for `LOG`. -/
def macroEnv : Env :=
  { length := 0
    lines := default
    pre :=
      { macros := NameMap.ofList
          [("ONE", ⟨"ONE", .function ["a"] false "a", ⟨0, 0⟩, none⟩),
            ("LOG", ⟨"LOG", .function ["fmt"] true "fmt", ⟨0, 0⟩, none⟩),
            ("SAY", ⟨"SAY", .object "LOG", ⟨0, 0⟩, none⟩)] }
    definitions := {} }

theorem checkCall_wrongArity_iff_alias :
    let state : State := { rest := [], arena := .new 0 }
    CallsDefinition macroEnv state "LOG" (.function ["fmt"] true "fmt") ∧ Leads macroEnv state "SAY" "LOG" ∧
      ((∃ finding, (checkCall macroEnv state ⟨0, 3⟩ "SAY" []).finding = some finding ∧
          finding.problem.code = .wrongArity) ↔
        macroEnv.pre.macros.invoke? "LOG" [] = none ∨
          (Macro.Definition.function ["fmt"] true "fmt").LeavesOut 0) := by
  intro state
  have calls : CallsDefinition macroEnv state "LOG" (.function ["fmt"] true "fmt") :=
    ⟨by decide, by decide, by decide, by decide, rfl⟩
  have leads : Leads macroEnv state "SAY" "LOG" := by
    refine .standing (fun span args => ?_) (by decide +kernel)
    rfl
  exact ⟨calls, leads, checkCall_wrongArity_iff calls leads ⟨0, 3⟩ rfl⟩

/-- A call that leaves out the one argument of `ONE` is found to have the wrong number of arguments, although the
expansion takes it. -/
theorem checkCall_emptyCall :
    let state : State := { rest := [], arena := .new 0 }
    CallsDefinition macroEnv state "ONE" (.function ["a"] false "a") ∧
      (checkCall macroEnv state ⟨0, 3⟩ "ONE" []).finding = some ⟨.macroArity "ONE" "1" 0, ⟨0, 3⟩⟩ ∧
      macroEnv.pre.macros.invoke? "ONE" [] = some "" := by
  refine ⟨⟨by decide, by decide, by decide, by decide, rfl⟩, by decide +kernel, by decide +kernel⟩

end Analysis

end ScriptLint
