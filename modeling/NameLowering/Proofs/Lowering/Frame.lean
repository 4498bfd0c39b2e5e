import NameLowering.Proofs.Lowering.Calls
import NameLowering.Proofs.Lowering.Outcomes

/-!
# What lowering leaves alone

A call fails just where no name is held, and then it changes nothing. What stands in for the
undefined value or for a library global changes nothing either. A placeholder comes with the one
diagnostic that says why it is there, and every other result only adds to the state.
-/

namespace NameLowering

/-! ## Results of calls -/

/-- The result of a call, as an expression. -/
def LoweringAnswer.result : LoweringAnswer → Except LoweringError Lua.Expr
  | .ident result => result.map .ident
  | .expr result => result

def Lua.Expr.isPlaceholder : Lua.Expr → Bool
  | .ident name => name.isPlaceholder
  | _ => false

/-- Why no name is held at a node. -/
inductive Program.HoldsNoName (program : Program) (ref : NodeRef) : LoweringError → Prop
  | missingNode
      (missing : program.tree.node? ref = none) :
      HoldsNoName program ref (.missingNode ref)
  | notAnIdentifier
      {node : Node} (found : program.tree.node? ref = some node)
      (nameless : node.shape.name? = none) :
      HoldsNoName program ref (.notAnIdentifier ref node.kind)

/-- The later state has all that the earlier one has in its place, and the same scopes are open. -/
structure UnitState.OnlyGrows (earlier later : UnitState) : Prop extends
    UnitState.Extends earlier later where
  diagnostics : ∃ added : List Diagnostic, later.diagnostics = earlier.diagnostics ++ added
  sightings : ∀ number sighting, earlier.numbering.sighting? number = some sighting →
    later.numbering.sighting? number = some sighting
  stack : later.scopes.stack = earlier.scopes.stack

theorem UnitState.OnlyGrows.refl (state : UnitState) : state.OnlyGrows state where
  toExtends := Extends.refl state
  diagnostics := ⟨[], by simp⟩
  sightings _ _ known := known
  stack := rfl

theorem UnitState.OnlyGrows.trans
    {first second third : UnitState} (early : first.OnlyGrows second)
    (late : second.OnlyGrows third) :
    first.OnlyGrows third where
  toExtends := early.toExtends.trans late.toExtends
  diagnostics := by
    obtain ⟨added, reported⟩ := early.diagnostics
    obtain ⟨addedLater, reportedLater⟩ := late.diagnostics
    refine ⟨added ++ addedLater, ?_⟩
    rw [reportedLater, reported]
    apply Array.ext'
    simp
  sightings number sighting known := late.sightings number sighting
    (early.sightings number sighting known)
  stack := late.stack.trans early.stack

theorem Program.expectName_eq_error_iff
    {program : Program} {ref : NodeRef} {error : LoweringError} :
    program.expectName ref = .error error ↔ program.HoldsNoName ref error := by
  unfold expectName
  constructor
  · intro failed
    cases found : program.tree.node? ref with
    | none =>
        simp only [found, Except.error.injEq] at failed
        subst failed
        exact .missingNode found
    | some node =>
        cases nameless : node.shape.name? with
        | none =>
            simp only [found, nameless, Except.error.injEq] at failed
            subst failed
            exact .notAnIdentifier found nameless
        | some name =>
            simp [found, nameless] at failed
  · intro holdsNone
    cases holdsNone with
    | missingNode missing =>
        simp only [missing]
    | notAnIdentifier found nameless =>
        simp only [found, nameless]

namespace Setting

/-- What a call turns a name into. -/
def valueFor (setting : Setting) (call : LoweringCall) (name : SourceName) (state : UnitState) :
    Lua.Expr :=
  match call with
  | .reference ref => .ident (setting.variableUsed ref name state).1
  | .declaration ref => .ident (setting.variableFor ref name state).1
  | .expression ref => (setting.expressionFor ref name state).1

variable {setting : Setting} {call : LoweringCall} {ref : NodeRef} {name : SourceName}
  {state : UnitState}

theorem result_perform_of_name (held : setting.program.expectName call.ref = .ok name) :
    (setting.perform call state).1.result = .ok (setting.valueFor call name state) := by
  rw [perform_of_name held]
  cases call <;> rfl

theorem result_perform_of_error
    {error : LoweringError} (nameless : setting.program.expectName call.ref = .error error) :
    (setting.perform call state).1.result = .error error := by
  rw [perform_of_error nameless]
  cases call <;> rfl

theorem exists_name_of_result
    {value : Lua.Expr} (lowered : (setting.perform call state).1.result = .ok value) :
    ∃ name, setting.program.expectName call.ref = .ok name ∧
      value = setting.valueFor call name state := by
  cases held : setting.program.expectName call.ref with
  | error error =>
      rw [result_perform_of_error held] at lowered
      contradiction
  | ok name =>
      rw [result_perform_of_name held] at lowered
      exact ⟨name, rfl, (Except.ok.inj lowered).symm⟩

theorem result_eq_error_iff {error : LoweringError} :
    (setting.perform call state).1.result = .error error ↔
      setting.program.expectName call.ref = .error error := by
  constructor
  · intro failed
    cases held : setting.program.expectName call.ref with
    | error other =>
        rw [result_perform_of_error held] at failed
        rw [Except.error.inj failed]
    | ok name =>
        rw [result_perform_of_name held] at failed
        contradiction
  · exact result_perform_of_error

/-! ## Stand-ins -/

/-- A variable stands for no name of the library: it has the number of its symbol, and what stands
for such a name has none. -/
theorem not_isStandIn_variableFor :
    ¬ setting.program.IsStandIn ref (.ident (setting.variableFor ref name state).1) := by
  rintro (isNil | replacement)
  · contradiction
  · rcases Program.forms_of_libraryReplacement? replacement with quotient | huge | globals
    · contradiction
    · contradiction
    · have unnumbered : (setting.variableFor ref name state).1.symbol = none :=
        congrArg Lua.Ident.symbol (Lua.Expr.ident.inj globals)
      rw [variableFor_eq, Option.map_eq_none_iff] at unnumbered
      simp [Program.libraryReplacement?, Program.boundSymbol?, unnumbered] at replacement

theorem callEffect_of_isStandIn
    (standIn : setting.program.IsStandIn call.ref (setting.valueFor call name state)) :
    setting.callEffect call name = {} := by
  cases call with
  | reference ref =>
      rw [valueFor] at standIn
      cases lowerable : (setting.program.useVerdict ref).lowerable with
      | false =>
          rw [variableUsed_of_not_lowerable lowerable] at standIn
          exact absurd standIn (Program.not_isStandIn_placeholder _)
      | true =>
          rw [variableUsed_of_lowerable lowerable] at standIn
          exact absurd standIn not_isStandIn_variableFor
  | declaration ref =>
      exact absurd standIn not_isStandIn_variableFor
  | expression ref =>
      exact (setting.outcome_expressionFor ref name state).effect_of_isStandIn standIn

/-! ## Placeholders -/

/-- What cannot be lowered has one problem, and nothing else is to be said of it. -/
theorem useEffect_of_not_lowerable
    (refused : (setting.program.useVerdict ref).lowerable = false) :
    ∃ problem, setting.useEffect ref name = { problems := [problem] } := by
  have oneProblem : ∃ problem, (setting.program.useVerdict ref).problems = [problem] := by
    unfold Program.useVerdict at refused ⊢
    cases bare : setting.program.bareExtension? ref with
    | none =>
        simp [bare] at refused
    | some extension =>
        cases extension with
        | multiFunction | rangeFunction =>
            simp [Extension.isCalledOnly, Extension.bareUseProblem?]
        | multiType | iterableType | operator | tableGet | tableSet | tableNew =>
            simp [bare, Extension.isCalledOnly] at refused
  obtain ⟨problem, problems⟩ := oneProblem
  exact ⟨problem, by simp only [useEffect, refused, problems, Bool.false_eq_true, if_false]⟩

theorem isPlaceholder_variableFor :
    (setting.variableFor ref name state).1.isPlaceholder = false := by
  rw [variableFor_eq]
  rfl

theorem callEffect_of_isPlaceholder
    (placeholder : (setting.valueFor call name state).isPlaceholder = true) :
    ∃ problem, setting.callEffect call name = { problems := [problem] } := by
  cases call with
  | reference ref =>
      apply useEffect_of_not_lowerable
      rw [valueFor, Lua.Expr.isPlaceholder, isPlaceholder_variableUsed] at placeholder
      simpa using placeholder
  | declaration ref =>
      rw [valueFor, Lua.Expr.isPlaceholder, isPlaceholder_variableFor] at placeholder
      contradiction
  | expression ref =>
      have outcome := setting.outcome_expressionFor ref name state
      rw [valueFor] at placeholder
      rw [callEffect]
      -- Of the six forms, only a refused use is a placeholder.
      generalize (setting.expressionFor ref name state).1 = value at outcome placeholder
      generalize setting.expressionEffect ref name = effect at outcome ⊢
      cases outcome with
      | refused refused =>
          exact useEffect_of_not_lowerable refused
      | replaced notExported defined replacement =>
          rcases Program.forms_of_libraryReplacement? replacement with rfl | rfl | rfl
          · contradiction
          · contradiction
          · contradiction
      | plain notExported defined ordinary lowerable =>
          rw [Lua.Expr.isPlaceholder, isPlaceholder_variableFor] at placeholder
          contradiction
      | undefined | fileExport | memberExport =>
          contradiction

/-! ## All calls -/

theorem apply_problem (problem : Problem) :
    setting.apply ref { problems := [problem] } state =
      { state with
        diagnostics := state.diagnostics.push (setting.program.report ref problem) } := by
  simp [apply, UnitState.trackAll, NameTable.serveAll]

theorem onlyGrows_apply (effect : Effect) :
    state.OnlyGrows (setting.apply ref effect state) where
  toExtends := extends_apply effect
  diagnostics := ⟨_, rfl⟩
  sightings _ _ known := UnitState.sighting?_trackAll known ref effect.tracked
  stack := UnitState.stack_trackAll ref effect.tracked state

theorem onlyGrows_perform (call : LoweringCall) (state : UnitState) :
    state.OnlyGrows (setting.perform call state).2 := by
  cases held : setting.program.expectName call.ref with
  | error error =>
      rw [perform_of_error held]
      exact UnitState.OnlyGrows.refl state
  | ok name =>
      rw [perform_of_name held]
      exact onlyGrows_apply _

/-- No call of a run takes back what an earlier one added. -/
theorem onlyGrows_performAll (calls : List LoweringCall) (state : UnitState) :
    state.OnlyGrows (setting.performAll calls state) := by
  induction calls generalizing state with
  | nil =>
      exact UnitState.OnlyGrows.refl state
  | cons call rest inductionHypothesis =>
      exact (onlyGrows_perform call state).trans (inductionHypothesis _)

end Setting

/-! ## One call of each kind -/

/-- The name of a function that returns several values at once (0), the name of a library global
(1), and a numeral (2). -/
def Program.functionGlobalAndNumeral : Program :=
  let (function, program) := Program.addIdentifier { fileName := "main.ts" } "multi" 0
  let (global, program) := program.addIdentifier "NaN" 6
  let (_, program) := program.addNumeral { start := 10, stop := 11 }
  let (result, types) := program.types.add (.intrinsic .any)
  let (base, types) := types.add (.function [] result [])
  let (multi, types) := types.addExtension .multiFunction base
  let (symbol, symbols) := program.symbols.add { name := "NaN", flags := .standardLibrary }
  ({ program with types, symbols }.setType function multi).bind global symbol

/-- A state with one open scope. -/
def UnitState.inFile : UnitState where
  scopes := { stack := [{ kind := .file, id := 1, node := .node 3, start := 0 }], opened := 1 }

end NameLowering
