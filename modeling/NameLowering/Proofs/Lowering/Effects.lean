import NameLowering.Lowering.Reference
import NameLowering.Proofs.Names.History
import NameLowering.Proofs.References.Numbering

/-!
# Effects of lowering

What lowering a reference adds to the state of a unit depends on the program alone: the problems it
reports, the requests it makes of the name table and the symbols it tracks. The state only decides
which output names and which numbers these get.
-/

namespace NameLowering

theorem Program.expectName_eq_ok_iff {program : Program} {ref : NodeRef} {name : SourceName} :
    program.expectName ref = .ok name ↔ program.tree.name? ref = some name := by
  unfold expectName
  rw [Tree.name?]
  cases program.tree.node? ref with
  | none =>
      simp
  | some node =>
      cases found : node.shape.name? with
      | none => simp [found]
      | some held => simp [found]

/-! ## Effects -/

/-- What the lowering of one reference adds to the state of a unit. -/
structure Effect where
  problems : List Problem := []
  requests : List NameRequest := []
  tracked : List SymbolRef := []
deriving DecidableEq, Repr

def Effect.andThen (first second : Effect) : Effect where
  problems := first.problems ++ second.problems
  requests := first.requests ++ second.requests
  tracked := first.tracked ++ second.tracked

@[simp]
theorem Effect.andThen_empty (effect : Effect) : effect.andThen {} = effect := by
  simp [andThen]

def UnitState.trackAll (ref : NodeRef) : List SymbolRef → UnitState → UnitState
  | [], state => state
  | symbol :: rest, state => trackAll ref rest (state.track symbol ref).2

namespace Setting

def apply (setting : Setting) (ref : NodeRef) (effect : Effect) (state : UnitState) :
    UnitState :=
  { state.trackAll ref effect.tracked with
    diagnostics := state.diagnostics ++ effect.problems.map (setting.program.report ref)
    names := NameTable.serveAll setting.target effect.requests state.names }

end Setting

theorem UnitState.trackAll_append
    (ref : NodeRef) (first second : List SymbolRef) (state : UnitState) :
    state.trackAll ref (first ++ second) = (state.trackAll ref first).trackAll ref second := by
  induction first generalizing state with
  | nil =>
      rfl
  | cons symbol rest inductionHypothesis =>
      exact inductionHypothesis (state.track symbol ref).2

/-- Tracking looks at the numbering and the scopes alone. -/
theorem UnitState.trackAll_with
    (ref : NodeRef) (symbols : List SymbolRef) (state : UnitState)
    (diagnostics : Array Diagnostic) (names : NameTable) :
    trackAll ref symbols { state with diagnostics, names } =
      { state.trackAll ref symbols with diagnostics, names } := by
  induction symbols generalizing state with
  | nil =>
      rfl
  | cons symbol rest inductionHypothesis =>
      exact inductionHypothesis (state.track symbol ref).2

/-- What tracking one symbol keeps is kept by tracking any number of them. -/
theorem UnitState.trackAll_invariant
    (invariant : UnitState → Prop) {ref : NodeRef}
    (kept : ∀ state symbol, invariant state → invariant (state.track symbol ref).2)
    (symbols : List SymbolRef) {state : UnitState} (holds : invariant state) :
    invariant (state.trackAll ref symbols) := by
  induction symbols generalizing state with
  | nil =>
      exact holds
  | cons symbol rest inductionHypothesis =>
      exact inductionHypothesis (kept state symbol holds)

/-- Tracking opens and closes no scopes. -/
theorem UnitState.stack_trackAll
    (ref : NodeRef) (symbols : List SymbolRef) (state : UnitState) :
    (state.trackAll ref symbols).scopes.stack = state.scopes.stack :=
  trackAll_invariant (fun later => later.scopes.stack = state.scopes.stack)
    (fun _ _ same => same) symbols rfl

theorem UnitState.opened_trackAll
    (ref : NodeRef) (symbols : List SymbolRef) (state : UnitState) :
    (state.trackAll ref symbols).scopes.opened = state.scopes.opened :=
  trackAll_invariant (fun later => later.scopes.opened = state.scopes.opened)
    (fun _ _ same => same) symbols rfl

namespace Setting

variable (setting : Setting) (ref : NodeRef)

theorem apply_andThen (first second : Effect) (state : UnitState) :
    setting.apply ref (first.andThen second) state =
      setting.apply ref second (setting.apply ref first state) := by
  have diagnostics :
      state.diagnostics ++
          (first.problems ++ second.problems).map (setting.program.report ref) =
        state.diagnostics ++ first.problems.map (setting.program.report ref) ++
          second.problems.map (setting.program.report ref) := by
    apply Array.ext'
    simp
  unfold apply Effect.andThen
  rw [UnitState.trackAll_with ref second.tracked (state.trackAll ref first.tracked),
    UnitState.trackAll_append, NameTable.serveAll_append, diagnostics]

@[simp]
theorem apply_empty (state : UnitState) : setting.apply ref {} state = state := by
  simp [apply, UnitState.trackAll, NameTable.serveAll]

theorem report_eq_apply (problems : List Problem) (state : UnitState) :
    setting.report ref problems state = setting.apply ref { problems } state :=
  rfl

/-! ## Effects of the steps -/

def escapes : Bool :=
  match setting.program.symbolAt ref with
  | some symbol => setting.escapesSymbol symbol
  | none => setting.escapesText ref

def nameProblems : List Problem :=
  match setting.program.symbolAt ref with
  | some symbol => setting.symbolProblems symbol
  | none => []

/-- What is asked of the name table for the variable that a name stands for. -/
def variableRequest (name : SourceName) : NameRequest :=
  if setting.escapes ref then .assign name.text else .reserve name.text

/-- The effect of lowering a name to a variable, without a look at its use. -/
def variableEffect (name : SourceName) : Effect where
  problems := setting.nameProblems ref
  requests := [setting.variableRequest ref name]
  tracked := (setting.program.symbolAt ref).toList

/-- The effect of lowering the use of a name to a variable. -/
def useEffect (name : SourceName) : Effect :=
  let verdict := setting.program.useVerdict ref
  if verdict.lowerable then
    Effect.andThen { problems := verdict.problems } (setting.variableEffect ref name)
  else
    { problems := verdict.problems }

def tableEffect (scope : ExportScope) : Effect :=
  match scope.kind with
  | .sourceFile => {}
  | .namespaceDeclaration | .enumDeclaration =>
    match setting.program.symbols.get? scope.container with
    | some symbol => { requests := [.mangle symbol.name], tracked := [scope.container] }
    | none => {}

def expressionEffect (name : SourceName) : Effect :=
  match setting.program.exportScopeAt? ref with
  | some scope =>
    if (setting.program.useVerdict ref).lowerable then
      (setting.useEffect ref name).andThen (setting.tableEffect scope)
    else
      setting.useEffect ref name
  | none =>
    if name.keyword = some .undefinedKeyword then {}
    else if (setting.program.libraryReplacement? ref).isSome then {}
    else setting.useEffect ref name

/-! ## Variables -/

variable {setting ref} {name : SourceName} {state : UnitState}

theorem checkName_eq :
    setting.checkName ref state =
      (setting.escapes ref, setting.report ref (setting.nameProblems ref) state) := by
  unfold checkName escapes nameProblems
  cases setting.program.symbolAt ref with
  | some symbol =>
      rfl
  | none =>
      exact congrArg _ (setting.apply_empty ref state).symm

theorem trackAt_eq :
    setting.trackAt ref state =
      ((setting.program.symbolAt ref).map fun symbol => (state.numbering.see symbol ref).1,
        state.trackAll ref (setting.program.symbolAt ref).toList) := by
  unfold trackAt
  cases setting.program.symbolAt ref <;> rfl

theorem variableRequest_name : (setting.variableRequest ref name).name = name.text := by
  unfold variableRequest
  split <;> rfl

theorem variableRequest_escapes :
    (setting.variableRequest ref name).escapes setting.target = setting.escapes ref := by
  unfold variableRequest
  cases setting.escapes ref <;> rfl

theorem serve_variableRequest (table : NameTable) :
    table.serve setting.target (setting.variableRequest ref name) =
      table.outputName setting.target (setting.escapes ref) name.text := by
  rw [NameTable.serve_eq_outputName, variableRequest_name, variableRequest_escapes]

/-- The text of a variable comes from the name table and its number from the numbering. -/
theorem variableFor_eq :
    setting.variableFor ref name state =
      ({ text := (state.names.serve setting.target (setting.variableRequest ref name)).1
         sourceName := some name.text
         symbol :=
          (setting.program.symbolAt ref).map fun symbol => (state.numbering.see symbol ref).1
         source := some ref },
        setting.apply ref (setting.variableEffect ref name) state) := by
  unfold variableFor
  rw [checkName_eq, serve_variableRequest]
  simp only [trackAt_eq, apply, variableEffect, NameTable.serveAll, serve_variableRequest,
    UnitState.trackAll_with, report]

theorem variableUsed_of_lowerable
    (lowerable : (setting.program.useVerdict ref).lowerable = true) :
    setting.variableUsed ref name state =
      ((setting.variableFor ref name state).1,
        setting.apply ref (setting.useEffect ref name) state) := by
  have effects :
      setting.useEffect ref name =
        Effect.andThen { problems := (setting.program.useVerdict ref).problems }
          (setting.variableEffect ref name) := by
    simp only [useEffect, lowerable, if_true]
  rw [effects, apply_andThen, ← report_eq_apply]
  simp only [variableUsed, lowerable, if_true, variableFor_eq]
  rfl

theorem variableUsed_of_not_lowerable
    (refused : (setting.program.useVerdict ref).lowerable = false) :
    setting.variableUsed ref name state =
      (.placeholder (some ref), setting.apply ref (setting.useEffect ref name) state) := by
  simp only [variableUsed, useEffect, refused, Bool.false_eq_true, if_false, report_eq_apply]

theorem variableUsed_snd :
    (setting.variableUsed ref name state).2 =
      setting.apply ref (setting.useEffect ref name) state := by
  cases lowerable : (setting.program.useVerdict ref).lowerable with
  | true =>
      rw [variableUsed_of_lowerable lowerable]
  | false =>
      rw [variableUsed_of_not_lowerable lowerable]

/-- A use that is refused is lowered to a placeholder, and no other is. -/
theorem isPlaceholder_variableUsed
    (setting : Setting) (ref : NodeRef) (name : SourceName) (state : UnitState) :
    (setting.variableUsed ref name state).1.isPlaceholder =
      !(setting.program.useVerdict ref).lowerable := by
  cases lowerable : (setting.program.useVerdict ref).lowerable with
  | false =>
      rw [variableUsed_of_not_lowerable lowerable]
      rfl
  | true =>
      rw [variableUsed_of_lowerable lowerable, variableFor_eq]
      rfl

/-! ## Expressions -/

variable {scope : ExportScope} {container : Symbol}

theorem containerVariable?_eq
    (found : setting.program.symbols.get? scope.container = some container) :
    setting.containerVariable? scope.container ref state =
      some
        ({ text := (state.names.serve setting.target (.mangle container.name)).1
           sourceName := some container.name
           symbol := some (state.numbering.see scope.container ref).1 },
          setting.apply ref
            { requests := [.mangle container.name], tracked := [scope.container] } state) := by
  simp only [containerVariable?, found, Option.bind_eq_bind, Option.bind_some]
  simp [apply, UnitState.trackAll, UnitState.track, NameTable.serveAll, NameTable.serve]

theorem exportTable?_snd {table : Lua.Ident} {later : UnitState}
    (found : setting.exportTable? scope ref state = some (table, later)) :
    later = setting.apply ref (setting.tableEffect scope) state := by
  cases kind : scope.kind with
  | sourceFile =>
      simp only [exportTable?, tableEffect, kind, apply_empty] at found ⊢
      cases found
      rfl
  | namespaceDeclaration | enumDeclaration =>
      simp only [exportTable?, tableEffect, kind] at found ⊢
      cases symbol : setting.program.symbols.get? scope.container with
      | none =>
          simp [containerVariable?, symbol] at found
      | some container =>
          rw [containerVariable?_eq symbol] at found
          cases found
          rfl

theorem tableEffect_of_exportTable?_eq_none
    (missing : setting.exportTable? scope ref state = none) :
    setting.tableEffect scope = {} := by
  cases kind : scope.kind with
  | sourceFile =>
      simp [exportTable?, kind] at missing
  | namespaceDeclaration | enumDeclaration =>
      simp only [exportTable?, tableEffect, kind] at missing ⊢
      cases symbol : setting.program.symbols.get? scope.container with
      | none =>
          rfl
      | some container =>
          simp [containerVariable?_eq symbol] at missing

theorem exportAccess_snd {ident : Lua.Ident}
    (exportable : ident.exportable = true) (source : ident.source = some ref) :
    (setting.exportAccess ident scope state).2 =
      setting.apply ref (setting.tableEffect scope) state := by
  simp only [exportAccess, exportable, if_true, source, Option.getD_some]
  cases found : setting.exportTable? scope ref state with
  | none =>
      rw [tableEffect_of_exportTable?_eq_none found, apply_empty]
  | some table =>
      exact exportTable?_snd found

theorem exportAccess_of_not_exportable {ident : Lua.Ident}
    (placeholder : ident.exportable = false) :
    setting.exportAccess ident scope state = (.ident ident, state) := by
  simp only [exportAccess, placeholder, Bool.false_eq_true, if_false]

theorem withSymbolName_source (ident : Lua.Ident) :
    (setting.withSymbolName ref ident).source = ident.source := by
  unfold withSymbolName
  split
  · split <;> rfl
  · rfl

theorem withSymbolName_exportable (ident : Lua.Ident) :
    (setting.withSymbolName ref ident).exportable = ident.exportable := by
  unfold withSymbolName
  split
  · split <;> rfl
  · rfl

theorem withSymbolName_placeholder :
    setting.withSymbolName ref (.placeholder (some ref)) = .placeholder (some ref) := by
  unfold withSymbolName
  split <;> rfl

/-- What is used as an export is a field of a table, unless its use cannot be lowered. -/
theorem expressionFor_of_exportScope
    (exported : setting.program.exportScopeAt? ref = some scope)
    (lowerable : (setting.program.useVerdict ref).lowerable = true) :
    setting.expressionFor ref name state =
      setting.exportAccess
        (setting.withSymbolName ref (setting.variableFor ref name state).1) scope
        (setting.apply ref (setting.useEffect ref name) state) := by
  simp only [expressionFor, exported, variableUsed_of_lowerable lowerable]

theorem expressionFor_of_not_lowerable
    (exported : setting.program.exportScopeAt? ref = some scope)
    (refused : (setting.program.useVerdict ref).lowerable = false) :
    setting.expressionFor ref name state =
      (.ident (.placeholder (some ref)),
        setting.apply ref (setting.useEffect ref name) state) := by
  simp only [expressionFor, exported, variableUsed_of_not_lowerable refused,
    withSymbolName_placeholder]
  exact exportAccess_of_not_exportable rfl

theorem expressionFor_of_variable
    (notExported : setting.program.exportScopeAt? ref = none)
    (defined : name.keyword ≠ some .undefinedKeyword)
    (ordinary : setting.program.libraryReplacement? ref = none) :
    setting.expressionFor ref name state =
      (.ident (setting.variableUsed ref name state).1,
        setting.apply ref (setting.useEffect ref name) state) := by
  simp only [expressionFor, notExported, defined, ordinary, if_false, ← variableUsed_snd]

theorem expressionFor_snd :
    (setting.expressionFor ref name state).2 =
      setting.apply ref (setting.expressionEffect ref name) state := by
  cases exported : setting.program.exportScopeAt? ref with
  | some scope =>
      cases lowerable : (setting.program.useVerdict ref).lowerable with
      | true =>
          have source :
              (setting.withSymbolName ref (setting.variableFor ref name state).1).source =
                some ref := by
            rw [withSymbolName_source, variableFor_eq]
          have exportable :
              (setting.withSymbolName ref
                (setting.variableFor ref name state).1).exportable = true := by
            rw [withSymbolName_exportable, variableFor_eq]
          rw [expressionFor_of_exportScope exported lowerable,
            exportAccess_snd exportable source, ← apply_andThen]
          simp only [expressionEffect, exported, lowerable, if_true]
      | false =>
          rw [expressionFor_of_not_lowerable exported lowerable]
          simp only [expressionEffect, exported, lowerable, Bool.false_eq_true, if_false]
  | none =>
      by_cases undefinedName : name.keyword = some .undefinedKeyword
      · simp only [expressionFor, expressionEffect, exported, undefinedName, if_true, apply_empty]
      · cases replacement : setting.program.libraryReplacement? ref with
        | some expression =>
            simp only [expressionFor, expressionEffect, exported, undefinedName, replacement,
              if_false, Option.isSome_some, if_true, apply_empty]
        | none =>
            rw [expressionFor_of_variable exported undefinedName replacement]
            simp only [expressionEffect, exported, undefinedName, replacement, if_false,
              Option.isSome_none, Bool.false_eq_true]

end Setting

end NameLowering
