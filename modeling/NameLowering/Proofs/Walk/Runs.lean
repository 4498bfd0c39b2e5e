import NameLowering.Proofs.Walk.Itinerary

/-!
# Walks as runs

A walk is the run of the stops on its itinerary, from the first to the last, and fails where the
itinerary does.
-/

namespace NameLowering

/-! ## Runs -/

namespace Walk

/-- Does what there is to do at a stop. -/
def step (setting : Setting) (walk : Walk) : WalkEvent → Walk
  | .declared ref name =>
    let (ident, state) := setting.variableFor ref name walk.state
    { walk with
      state, names := walk.names.push { source := ref, lowered := .declaration ident } }
  | .used ref name =>
    let (value, state) := setting.expressionFor ref name walk.state
    { walk with
      state, names := walk.names.push { source := ref, lowered := .expression value } }
  | .opened kind ref => walk.enter kind ref
  | .closed => walk.leave

def run (setting : Setting) (stops : List Stop) (walk : Walk) : Walk :=
  stops.foldl (fun walk stop => walk.step setting stop.event) walk

variable {setting : Setting} {walk : Walk}

theorem run_append (earlier later : List Stop) :
    run setting (earlier ++ later) walk = run setting later (run setting earlier walk) :=
  List.foldl_append

theorem run_under (position : Nat) (stops : List Stop) :
    run setting (stops.map (Stop.under position)) walk = run setting stops walk :=
  List.foldl_map

theorem run_enclosed_of_none
    {kind : NodeKind} {ref : NodeRef} {stops : List Stop} (noScope : kind.scopeKind? = none) :
    run setting (Stop.enclosed kind ref stops) walk = run setting stops walk := by
  simp only [Stop.enclosed, noScope]

theorem run_enclosed_of_some
    {kind : NodeKind} {scope : ScopeKind} {ref : NodeRef} {stops : List Stop}
    (opens : kind.scopeKind? = some scope) :
    run setting (Stop.enclosed kind ref stops) walk =
      (run setting stops (walk.enter scope ref)).leave := by
  simp only [Stop.enclosed, opens, List.cons_append]
  rw [run, List.foldl_cons, List.foldl_append]
  rfl

/-! ## Walks are runs -/

theorem lowerDeclared_eq_run {ref : NodeRef} :
    walk.lowerDeclared setting ref =
      ((setting.program.expectName ref).map fun name =>
        [({ path := [0], event := .declared ref name } : Stop)]).map fun stops =>
          run setting stops walk := by
  cases held : setting.program.expectName ref with
  | error error =>
      simp only [lowerDeclared, Setting.lowerDeclared, Setting.atName, held, keep, Except.map]
  | ok name =>
      simp only [lowerDeclared, Setting.lowerDeclared, Setting.atName, held, keep, Except.map]
      rfl

theorem lowerExpression_eq_run
    {ref : NodeRef} {node : Node} {name : SourceName}
    (found : setting.program.tree.node? ref = some node)
    (isName : node.shape = .identifier name) :
    walk.lowerExpression setting ref = .ok (run setting [{ event := .used ref name }] walk) := by
  have held : setting.program.expectName ref = .ok name := by
    simp only [Program.expectName, found, isName, NodeShape.name?]
  simp only [lowerExpression, Setting.lowerExpression, Setting.atName, held, keep]
  rfl

theorem inScope_eq_run
    {kind : NodeKind} {ref : NodeRef} {part : Walk → Except LoweringError Walk}
    {stops : Except LoweringError (List Stop)}
    (partRuns : ∀ walk, part walk = stops.map fun stops => run setting stops walk) :
    walk.inScope kind ref part =
      (stops.map (Stop.enclosed kind ref)).map fun stops => run setting stops walk := by
  cases opens : kind.scopeKind? with
  | none =>
      simp only [inScope, opens, partRuns]
      cases stops with
      | error error => rfl
      | ok stops => exact congrArg Except.ok (run_enclosed_of_none opens).symm
  | some scope =>
      simp only [inScope, opens, partRuns]
      cases stops with
      | error error => rfl
      | ok stops => exact congrArg Except.ok (run_enclosed_of_some opens).symm

theorem bind_eq_run
    {first : Except LoweringError Walk} {rest : Walk → Except LoweringError Walk}
    {earlier later : Except LoweringError (List Stop)}
    (firstRuns : first = earlier.map fun stops => run setting stops walk)
    (restRuns : ∀ walk, rest walk = later.map fun stops => run setting stops walk) :
    first >>= rest =
      (do
        let earlier ← earlier
        let later ← later
        return earlier ++ later).map fun stops => run setting stops walk := by
  rw [firstRuns]
  cases earlier with
  | error error =>
      rfl
  | ok earlier =>
      change rest (run setting earlier walk) = _
      rw [restRuns]
      cases later with
      | error error => rfl
      | ok later => exact congrArg Except.ok (run_append earlier later).symm

theorem joinOne_run
    {stopsBelow : NodeRef → Except LoweringError (List Stop)} (position : Nat) (ref : NodeRef) :
    ((Stop.joinOne stopsBelow position ref).map fun stops => run setting stops walk) =
      (stopsBelow ref).map fun stops => run setting stops walk := by
  unfold Stop.joinOne
  cases stopsBelow ref with
  | error error => rfl
  | ok stops => exact congrArg Except.ok (run_under position stops)

theorem foldlM_eq_run
    {visitOne : Walk → NodeRef → Except LoweringError Walk}
    {stopsBelow : NodeRef → Except LoweringError (List Stop)}
    (visitRuns : ∀ walk ref,
      visitOne walk ref = (stopsBelow ref).map fun stops => run setting stops walk)
    (refs : List NodeRef) (position : Nat) (walk : Walk) :
    refs.foldlM visitOne walk =
      (Stop.joinAll stopsBelow position refs).map fun stops => run setting stops walk := by
  induction refs generalizing position walk with
  | nil =>
      rfl
  | cons ref rest inductionHypothesis =>
      rw [List.foldlM_cons, Stop.joinAll]
      apply bind_eq_run
      · rw [visitRuns, joinOne_run]
      · intro walk
        exact inductionHypothesis (position + 1) walk

/-- A walk is the run of its itinerary, and fails where that does. -/
theorem visit_eq_run
    (setting : Setting) (levels : Nat) (ref : NodeRef) (walk : Walk) :
    visit setting levels ref walk =
      (setting.program.itinerary levels ref).map fun stops => run setting stops walk := by
  induction levels generalizing ref walk with
  | zero =>
      rfl
  | succ levels inductionHypothesis =>
      have visitAll (refs : List NodeRef) (position : Nat) (walk : Walk) :=
        foldlM_eq_run (fun walk ref => inductionHypothesis ref walk) refs position walk
      rw [visit, Program.itinerary]
      cases found : setting.program.tree.node? ref with
      | none =>
          rfl
      | some node =>
          cases shape : node.shape with
          | identifier name =>
              simp only [shape]
              exact lowerExpression_eq_run found shape
          | member object key =>
              simp only [shape]
              rw [inductionHypothesis, joinOne_run]
          | declaration bound parts =>
              simp only [shape]
              by_cases ambient : setting.program.isAmbientName bound = true
              · simp only [ambient, ↓reduceIte]
                rfl
              · simp only [ambient, Bool.false_eq_true, ↓reduceIte]
                have inside (walk : Walk) :
                    walk.inScope node.kind ref (parts.foldlM fun walk ref =>
                        visit setting levels ref walk) = _ :=
                  inScope_eq_run (visitAll parts 1)
                by_cases isName : setting.program.tree.kind? bound = some .identifier
                · simp only [Program.nameStops, isName, ↓reduceIte]
                  exact bind_eq_run lowerDeclared_eq_run inside
                · by_cases present : bound.isPresent = true
                  · simp only [Program.nameStops, isName, present, ↓reduceIte]
                    refine bind_eq_run ?_ inside
                    rw [inductionHypothesis, joinOne_run]
                  · simp only [Program.nameStops, isName, present, Bool.false_eq_true, ↓reduceIte]
                    exact bind_eq_run rfl inside
          | call callee arguments | forOf initializer iterable body | group parts | token =>
              simp only [shape]
              exact inScope_eq_run (visitAll _ 0)

end Walk

end NameLowering
