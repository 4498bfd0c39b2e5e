import Mathlib.Data.List.Basic
import NameLowering.Proofs.Lowering.Stability
import NameLowering.Proofs.Walk.Runs

/-!
# What a walk yields

A run lowers the names on its itinerary, one after the other. Lowering is stable, so every name is
lowered to what the state at the end of the run says of it, and the output names are those that one
history of requests leads to.
-/

namespace NameLowering

namespace Setting

/-! ## Single events -/

/-- What a state says of the name that an event lowers. -/
def entryFor (setting : Setting) (state : UnitState) : WalkEvent → Option LoweredName
  | .declared ref name =>
    some { source := ref, lowered := .declaration (setting.variableFor ref name state).1 }
  | .used ref name =>
    some { source := ref, lowered := .expression (setting.expressionFor ref name state).1 }
  | .opened .. | .closed => none

/-- What an event asks of the name table. -/
def requestsFor (setting : Setting) : WalkEvent → List NameRequest
  | .declared ref name => (setting.variableEffect ref name).requests
  | .used ref name => (setting.expressionEffect ref name).requests
  | .opened .. | .closed => []

/-- What an event adds to the state of a unit. -/
def effectFor (setting : Setting) : WalkEvent → Effect
  | .declared ref name => setting.variableEffect ref name
  | .used ref name => setting.expressionEffect ref name
  | .opened .. | .closed => {}

theorem entryFor_source (setting : Setting) (state : UnitState) (event : WalkEvent) :
    (setting.entryFor state event).map LoweredName.source = event.source? := by
  cases event <;> rfl

end Setting

namespace Walk

variable {setting : Setting}

/-- Closing a scope changes nothing of the state but the scopes that are open. -/
theorem leave_state (walk : Walk) :
    walk.leave.state =
      { walk.state with
        scopes := { walk.state.scopes with stack := walk.state.scopes.stack.tail } } := by
  obtain ⟨⟨diagnostics, numbering, names, ⟨stack, opened, log⟩⟩, lowered, closed⟩ := walk
  cases stack with
  | nil => rfl
  | cons inner outer => rfl

/-- Closing the innermost scope yields it with what was logged since it was opened. -/
theorem leave_closed
    {walk : Walk} {inner : OpenScope} {outer : List OpenScope}
    (isOpen : walk.state.scopes.stack = inner :: outer) :
    walk.leave.closed =
      walk.closed.push
        { kind := inner.kind, id := inner.id, node := inner.node
          mentions :=
            (walk.state.scopes.log.extract inner.start walk.state.scopes.log.size).toList } := by
  simp only [leave, OpenScopes.leave?, isOpen]

theorem leave_names (walk : Walk) : walk.leave.names = walk.names := by
  unfold leave
  split <;> rfl

/-- A step that lowers a name has the effect of the event on the state. -/
theorem step_state
    (walk : Walk) {event : WalkEvent} {ref : NodeRef} (source : event.source? = some ref) :
    (walk.step setting event).state = setting.apply ref (setting.effectFor event) walk.state := by
  cases event with
  | declared other name =>
      obtain rfl := Option.some.inj source
      simp only [step, Setting.variableFor_eq, Setting.effectFor]
  | used other name =>
      obtain rfl := Option.some.inj source
      simp only [step, Setting.expressionFor_snd, Setting.effectFor]
  | opened kind other | closed =>
      contradiction

theorem step_nameTable (walk : Walk) (event : WalkEvent) :
    (walk.step setting event).state.names =
      NameTable.serveAll setting.target (setting.requestsFor event) walk.state.names := by
  cases event with
  | declared ref name | used ref name =>
      rw [step_state walk rfl]
      rfl
  | opened kind ref =>
      rfl
  | closed =>
      rw [step, leave_state]
      rfl

theorem extends_leave (walk : Walk) : walk.state.Extends walk.leave.state := by
  rw [leave_state]
  exact ⟨NameTable.Extends.refl _, fun _ _ known => known⟩

theorem extends_step (walk : Walk) (event : WalkEvent) :
    walk.state.Extends (walk.step setting event).state := by
  cases event with
  | declared ref name | used ref name =>
      rw [step_state walk rfl]
      exact Setting.extends_apply _
  | opened kind ref =>
      exact ⟨NameTable.Extends.refl _, fun _ _ known => known⟩
  | closed =>
      exact extends_leave walk

/-- A step adds what any later state says of the name. -/
theorem step_names
    (walk : Walk) (event : WalkEvent) {later : UnitState}
    (extension : (walk.step setting event).state.Extends later) :
    (walk.step setting event).names.toList =
      walk.names.toList ++ (setting.entryFor later event).toList := by
  cases event with
  | declared ref name =>
      rw [step_state walk rfl] at extension
      simp [step, Setting.entryFor, Setting.variableFor_stable extension]
  | used ref name =>
      rw [step_state walk rfl] at extension
      simp [step, Setting.entryFor, Setting.expressionFor_stable extension]
  | opened kind ref =>
      simp [step, enter, Setting.entryFor]
  | closed =>
      simp [step, leave_names, Setting.entryFor]

/-! ## Runs -/

theorem run_cons (stop : Stop) (rest : List Stop) (walk : Walk) :
    run setting (stop :: rest) walk = run setting rest (walk.step setting stop.event) :=
  rfl

theorem extends_run (stops : List Stop) (walk : Walk) :
    walk.state.Extends (run setting stops walk).state := by
  induction stops generalizing walk with
  | nil =>
      exact UnitState.Extends.refl walk.state
  | cons stop rest inductionHypothesis =>
      rw [run_cons]
      exact (extends_step walk stop.event).trans (inductionHypothesis _)

theorem run_nameTable (stops : List Stop) (walk : Walk) :
    (run setting stops walk).state.names =
      NameTable.serveAll setting.target
        (stops.flatMap fun stop => setting.requestsFor stop.event) walk.state.names := by
  induction stops generalizing walk with
  | nil =>
      rfl
  | cons stop rest inductionHypothesis =>
      rw [run_cons, inductionHypothesis, step_nameTable, List.flatMap_cons,
        NameTable.serveAll_append]

/-- Where every step adds to a list what a later state says of the event, a run adds that stop by
stop. -/
theorem run_gathers
    {α : Type} (gathered : Walk → List α) (ofEvent : WalkEvent → List α) {later : UnitState}
    (step : ∀ walk event, (walk.step setting event).state.Extends later →
      gathered (walk.step setting event) = gathered walk ++ ofEvent event)
    (stops : List Stop) (walk : Walk) (extension : (run setting stops walk).state.Extends later) :
    gathered (run setting stops walk) =
      gathered walk ++ stops.flatMap fun stop => ofEvent stop.event := by
  induction stops generalizing walk with
  | nil =>
      simp [run]
  | cons stop rest inductionHypothesis =>
      rw [run_cons] at extension ⊢
      have stepExtension := (extends_run rest (walk.step setting stop.event)).trans extension
      rw [inductionHypothesis _ extension, step walk stop.event stepExtension,
        List.append_assoc, List.flatMap_cons]

/-- A run adds, stop by stop, what the state at its end says of the names. -/
theorem run_names (stops : List Stop) (walk : Walk) :
    (run setting stops walk).names.toList =
      walk.names.toList ++
        stops.filterMap fun stop =>
          setting.entryFor (run setting stops walk).state stop.event := by
  rw [List.filterMap_eq_flatMap_toList]
  exact run_gathers (fun walk => walk.names.toList)
    (fun event => (setting.entryFor (run setting stops walk).state event).toList)
    (fun walk event => step_names walk event) stops walk (UnitState.Extends.refl _)

end Walk

/-! ## Files -/

namespace Setting

variable {setting : Setting} {root : NodeRef}

/-- The run that lowers a file. -/
theorem lowerFile_eq_run (isFile : setting.program.tree.kind? root = some .sourceFile) :
    setting.lowerFile root =
      (setting.program.itinerary Limits.treeDepth root).map fun stops =>
        let walk := Walk.run setting stops {}
        { names := walk.names, diagnostics := walk.state.diagnostics, scopes := walk.closed } := by
  simp only [lowerFile, isFile, Walk.visit_eq_run]
  cases setting.program.itinerary Limits.treeDepth root <;> rfl

/-- A file that was lowered is what the run of its itinerary yields. -/
theorem eq_run_of_lowerFile {file : LoweredUnit} (lowered : setting.lowerFile root = .ok file) :
    setting.program.tree.kind? root = some .sourceFile ∧
      ∃ stops, setting.program.itinerary Limits.treeDepth root = .ok stops ∧
        file.names = (Walk.run setting stops {}).names ∧
        file.diagnostics = (Walk.run setting stops {}).state.diagnostics ∧
        file.scopes = (Walk.run setting stops {}).closed := by
  have isFile : setting.program.tree.kind? root = some .sourceFile := by
    unfold lowerFile at lowered
    split at lowered
    · contradiction
    · assumption
    · contradiction
  rw [lowerFile_eq_run isFile] at lowered
  refine ⟨isFile, ?_⟩
  cases found : setting.program.itinerary Limits.treeDepth root with
  | error error =>
      simp [found, Except.map] at lowered
  | ok stops =>
      rw [found] at lowered
      obtain rfl := Except.ok.inj lowered
      exact ⟨stops, rfl, rfl, rfl, rfl⟩

theorem exists_run_of_lowerFile {file : LoweredUnit} (lowered : setting.lowerFile root = .ok file) :
    ∃ stops, setting.program.itinerary Limits.treeDepth root = .ok stops ∧
      file.names.toList =
        stops.filterMap fun stop =>
          setting.entryFor (Walk.run setting stops {}).state stop.event := by
  obtain ⟨_, stops, found, names, _⟩ := eq_run_of_lowerFile lowered
  refine ⟨stops, found, ?_⟩
  rw [names]
  exact Walk.run_names stops {}

/-- What is gathered from the names of a file, one after the other, is gathered from the stops of
the run. -/
theorem flatMap_names
    {α : Type} {file : LoweredUnit} {stops : List Stop}
    (names : file.names = (Walk.run setting stops {}).names)
    {ofEntry : LoweredName → List α} {ofStop : Stop → List α}
    (same : ∀ stop ∈ stops,
      (setting.entryFor (Walk.run setting stops {}).state stop.event).toList.flatMap ofEntry =
        ofStop stop) :
    file.names.toList.flatMap ofEntry = stops.flatMap ofStop := by
  rw [names, Walk.run_names, List.filterMap_eq_flatMap_toList]
  simp only [List.nil_append, List.flatMap_assoc]
  exact List.flatMap_congr same

end Setting

end NameLowering
