import NameLowering.Proofs.Lowering.Outcomes
import NameLowering.Proofs.Walk.Entries

/-!
# Mentions of symbols in a file

Every name of a file mentions the symbol that it is bound to, unless it is lowered to something
that is no reference to it, and the access to a table mentions the container as well. The mentions
of a file in source order are its log, and the numbers of the symbols are their places in the order
of first mention.
-/

namespace NameLowering

/-! ## What names refer to -/

namespace Program

/-- The namespace or enumeration whose table an expression accesses. -/
def containerReferred? (program : Program) (ref : NodeRef) (value : Lua.Expr) :
    Option SymbolRef :=
  match value, program.exportScopeAt? ref with
  | .index .., some scope => if scope.kind = .sourceFile then none else some scope.container
  | _, _ => none

/-- The symbols that a name of a file refers to. -/
def symbolsReferred (program : Program) (entry : LoweredName) : List SymbolRef :=
  match entry.lowered with
  | .declaration _ => (program.symbolAt entry.source).toList
  | .expression value =>
    if program.IsStandIn entry.source value ∨
        value = .ident (.placeholder (some entry.source)) then
      []
    else
      (program.symbolAt entry.source).toList ++
        (program.containerReferred? entry.source value).toList

/-- The symbols that the names of a file refer to, one for each reference. -/
def symbolsReferredIn (program : Program) (file : LoweredUnit) : List SymbolRef :=
  file.names.toList.flatMap program.symbolsReferred

/-- The number of a symbol in a file: its place in the order of first reference. -/
def numberIn (program : Program) (file : LoweredUnit) (symbol : SymbolRef) : SymbolNumber :=
  ⟨(program.symbolsReferredIn file).eraseDups.idxOf symbol + 1⟩

/-- The references of a file to symbols, in the order of its names. -/
def mentionsIn (program : Program) (file : LoweredUnit) : List Mention :=
  file.names.toList.flatMap fun entry =>
    (program.symbolsReferred entry).map fun symbol =>
      { symbol := program.numberIn file symbol, node := entry.source }

end Program

namespace Setting

variable {setting : Setting} {ref : NodeRef} {name : SourceName} {state : UnitState}

/-- What an expression refers to is what its lowering tracks. -/
theorem symbolsReferred_of_outcome
    {value : Lua.Expr} {effect : Effect} (outcome : Outcome setting ref name state value effect) :
    setting.program.symbolsReferred { source := ref, lowered := .expression value } =
      effect.tracked := by
  by_cases standIn : setting.program.IsStandIn ref value
  · rw [outcome.effect_of_isStandIn standIn]
    simp [Program.symbolsReferred, standIn]
  · have tracked (lowerable : (setting.program.useVerdict ref).lowerable = true) :
        (setting.useEffect ref name).tracked = (setting.program.symbolAt ref).toList := by
      simp [useEffect, lowerable, Effect.andThen, variableEffect]
    cases outcome with
    | undefined notExported isUndefined =>
        exact absurd (Or.inl rfl) standIn
    | replaced notExported defined replacement =>
        exact absurd (Or.inr replacement) standIn
    | refused refused =>
        simp [Program.symbolsReferred, useEffect, refused]
    | plain notExported defined ordinary lowerable =>
        have notPlaceholder :
            Lua.Expr.ident (setting.variableFor ref name state).1 ≠
              .ident (.placeholder (some ref)) := by
          simp [variableFor_eq, Lua.Ident.placeholder]
        simp [Program.symbolsReferred, standIn, notPlaceholder, Program.containerReferred?,
          tracked lowerable]
    | fileExport exported kind bound lowerable =>
        simp [Program.symbolsReferred, standIn, Program.containerReferred?, exported, kind,
          tracked lowerable]
    | memberExport exported kind bound held lowerable =>
        simp [Program.symbolsReferred, standIn, Program.containerReferred?, exported, kind,
          Effect.andThen, tracked lowerable]

/-- What a name refers to is what its event tracks. -/
theorem symbolsReferred_of_entryFor
    {event : WalkEvent} {entry : LoweredName} (isEntry : setting.entryFor state event = some entry) :
    setting.program.symbolsReferred entry = (setting.effectFor event).tracked := by
  cases event with
  | declared ref name =>
      obtain rfl := Option.some.inj isEntry
      rfl
  | used ref name =>
      obtain rfl := Option.some.inj isEntry
      exact symbolsReferred_of_outcome (setting.outcome_expressionFor ref name state)
  | opened kind ref | closed =>
      contradiction

theorem tracked_of_entryFor_eq_none
    {event : WalkEvent} (noEntry : setting.entryFor state event = none) :
    (setting.effectFor event).tracked = [] := by
  cases event with
  | declared ref name | used ref name =>
      contradiction
  | opened kind ref | closed =>
      rfl

/-! ## The log of a run -/

/-- The mentions at an event, numbered as in a state. -/
def mentionsFor (setting : Setting) (state : UnitState) (event : WalkEvent) : List Mention :=
  event.source?.toList.flatMap fun ref =>
    (setting.effectFor event).tracked.map fun symbol =>
      { symbol := (state.numbering.see symbol ref).1, node := ref }

end Setting

theorem UnitState.log_trackAll
    {ref : NodeRef} {symbols : List SymbolRef} {state later : UnitState}
    (extension : (state.trackAll ref symbols).numbering.Extends later.numbering) :
    (state.trackAll ref symbols).scopes.log.toList =
      state.scopes.log.toList ++
        symbols.map fun symbol =>
          { symbol := (later.numbering.see symbol ref).1, node := ref } := by
  induction symbols generalizing state with
  | nil =>
      simp [trackAll]
  | cons symbol rest inductionHypothesis =>
      have known : (state.numbering.see symbol ref).2.Extends later.numbering := by
        intro other number seen
        exact extension
          (UnitState.numbering_extends_trackAll ref rest (state.track symbol ref).2 seen)
      rw [trackAll, inductionHypothesis extension, List.map_cons, Numbering.see_stable known]
      simp [track, OpenScopes.mention]

theorem UnitState.symbols_trackAll
    {ref : NodeRef} {symbols seen : List SymbolRef} {state : UnitState}
    (first : state.numbering.symbols = seen.eraseDups) :
    (state.trackAll ref symbols).numbering.symbols = (seen ++ symbols).eraseDups := by
  induction symbols generalizing state seen with
  | nil =>
      rw [List.append_nil]
      exact first
  | cons symbol rest inductionHypothesis =>
      have next : (state.track symbol ref).2.numbering.symbols = (seen ++ [symbol]).eraseDups :=
        Numbering.symbols_see_of_eraseDups first symbol ref
      rw [trackAll, inductionHypothesis next, List.append_assoc, List.singleton_append]

namespace Walk

variable {setting : Setting}

theorem step_stack
    (walk : Walk) {event : WalkEvent} {ref : NodeRef} (source : event.source? = some ref) :
    (walk.step setting event).state.scopes.stack = walk.state.scopes.stack := by
  rw [step_state walk source]
  exact UnitState.stack_trackAll ref _ walk.state

theorem step_opened
    (walk : Walk) {event : WalkEvent} {ref : NodeRef} (source : event.source? = some ref) :
    (walk.step setting event).state.scopes.opened = walk.state.scopes.opened := by
  rw [step_state walk source]
  exact UnitState.opened_trackAll ref _ walk.state

theorem step_closed
    (walk : Walk) {event : WalkEvent} {ref : NodeRef} (source : event.source? = some ref) :
    (walk.step setting event).closed = walk.closed := by
  cases event with
  | declared other name | used other name =>
      rfl
  | opened kind other | closed =>
      contradiction

theorem step_log
    (walk : Walk) (event : WalkEvent) {later : UnitState}
    (extension : (walk.step setting event).state.Extends later) :
    (walk.step setting event).state.scopes.log.toList =
      walk.state.scopes.log.toList ++ setting.mentionsFor later event := by
  cases source : event.source? with
  | some ref =>
      rw [step_state walk source] at extension ⊢
      simp only [Setting.mentionsFor, source, Option.toList_some, List.flatMap_singleton]
      exact UnitState.log_trackAll extension.numbering
  | none =>
      cases event with
      | declared ref name | used ref name =>
          contradiction
      | opened kind ref =>
          simp [step, enter, OpenScopes.enter, Setting.mentionsFor, source]
      | closed =>
          simp [step, leave_state, Setting.mentionsFor, source]

/-- A run logs, stop by stop, what the events mention. -/
theorem run_log
    (stops : List Stop) (walk : Walk) {later : UnitState}
    (extension : (run setting stops walk).state.Extends later) :
    (run setting stops walk).state.scopes.log.toList =
      walk.state.scopes.log.toList ++
        stops.flatMap fun stop => setting.mentionsFor later stop.event :=
  run_gathers (fun walk => walk.state.scopes.log.toList) (setting.mentionsFor later)
    (fun walk event => step_log walk event) stops walk extension

theorem step_symbols
    (walk : Walk) (event : WalkEvent) {seen : List SymbolRef}
    (first : walk.state.numbering.symbols = seen.eraseDups) :
    (walk.step setting event).state.numbering.symbols =
      (seen ++ (setting.effectFor event).tracked).eraseDups := by
  cases source : event.source? with
  | some ref =>
      rw [step_state walk source]
      exact UnitState.symbols_trackAll first
  | none =>
      cases event with
      | declared ref name | used ref name =>
          contradiction
      | opened kind ref =>
          rw [Setting.effectFor, List.append_nil]
          exact first
      | closed =>
          rw [Setting.effectFor, List.append_nil, step, leave_state]
          exact first

/-- A run numbers the symbols in the order in which its events track them. -/
theorem run_symbols
    (stops : List Stop) (walk : Walk) {seen : List SymbolRef}
    (first : walk.state.numbering.symbols = seen.eraseDups) :
    (run setting stops walk).state.numbering.symbols =
      (seen ++ stops.flatMap fun stop => (setting.effectFor stop.event).tracked).eraseDups := by
  induction stops generalizing walk seen with
  | nil =>
      rw [List.flatMap_nil, List.append_nil]
      exact first
  | cons stop rest inductionHypothesis =>
      rw [run_cons, inductionHypothesis _ (step_symbols walk stop.event first),
        List.append_assoc, List.flatMap_cons]

end Walk

/-! ## The mentions of a file -/

namespace Setting

variable {setting : Setting} {root : NodeRef} {file : LoweredUnit} {stops : List Stop}

theorem symbolsReferredIn_eq
    (names : file.names = (Walk.run setting stops {}).names) :
    setting.program.symbolsReferredIn file =
      stops.flatMap fun stop => (setting.effectFor stop.event).tracked := by
  refine flatMap_names names fun stop _ => ?_
  cases isEntry : setting.entryFor (Walk.run setting stops {}).state stop.event with
  | some entry =>
      simp [symbolsReferred_of_entryFor isEntry]
  | none =>
      have silent := tracked_of_entryFor_eq_none isEntry
      simp [silent]

/-- The symbols of a file are numbered in the order of first reference. -/
theorem symbols_run_eq
    (names : file.names = (Walk.run setting stops {}).names) :
    (Walk.run setting stops {}).state.numbering.symbols =
      (setting.program.symbolsReferredIn file).eraseDups := by
  have nothingSeen : ({} : Walk).state.numbering.symbols = [].eraseDups := rfl
  rw [symbolsReferredIn_eq names]
  exact Walk.run_symbols stops {} nothingSeen

theorem mentionsIn_eq
    (names : file.names = (Walk.run setting stops {}).names) :
    setting.program.mentionsIn file =
      stops.flatMap fun stop =>
        setting.mentionsFor (Walk.run setting stops {}).state stop.event := by
  have order := symbols_run_eq names
  refine flatMap_names names fun stop _ => ?_
  cases isEntry : setting.entryFor (Walk.run setting stops {}).state stop.event with
  | some entry =>
      have source : stop.event.source? = some entry.source := by
        rw [← entryFor_source setting (Walk.run setting stops {}).state, isEntry, Option.map_some]
      simp [mentionsFor, source, symbolsReferred_of_entryFor isEntry, Program.numberIn,
        Numbering.fst_see, order]
  | none =>
      have source : stop.event.source? = none := by
        rw [← entryFor_source setting (Walk.run setting stops {}).state, isEntry, Option.map_none]
      simp [mentionsFor, source]

end Setting

end NameLowering
