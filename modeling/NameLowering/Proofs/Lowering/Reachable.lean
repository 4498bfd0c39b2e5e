import NameLowering.Proofs.Lowering.Calls

/-!
# Reachable states

The states that a unit may come to. From a fresh state on, names are lowered in any way and in any
order, and the parts of the state may be put to use on their own in between.
-/

namespace NameLowering.Setting

/-- A unit may come to a state. -/
inductive Reachable (setting : Setting) : UnitState → Prop
  | fresh : Reachable setting {}
  | lowered
      {state : UnitState} (before : Reachable setting state) (call : LoweringCall) :
      Reachable setting (setting.perform call state).2
  | named
      {state : UnitState} (before : Reachable setting state) (request : NameRequest) :
      Reachable setting
        { state with names := (state.names.serve setting.target request).2 }
  | seen
      {state : UnitState} (before : Reachable setting state) (symbol : SymbolRef)
      (ref : NodeRef) :
      Reachable setting { state with numbering := (state.numbering.see symbol ref).2 }
  | moved
      {state : UnitState} (before : Reachable setting state) (scopes : OpenScopes) :
      Reachable setting { state with scopes }
  | reported
      {state : UnitState} (before : Reachable setting state)
      (diagnostics : Array Diagnostic) :
      Reachable setting { state with diagnostics }

variable {setting : Setting} {state : UnitState}

/-- A call asks the name table for what it asks, and leaves the table alone otherwise. -/
theorem exists_requests_perform
    (setting : Setting) (call : LoweringCall) (state : UnitState) :
    ∃ requests,
      (setting.perform call state).2.names =
        NameTable.serveAll setting.target requests state.names := by
  cases held : setting.program.expectName call.ref with
  | error error =>
      rw [perform_of_error held]
      exact ⟨[], rfl⟩
  | ok name =>
      rw [perform_of_name held]
      exact ⟨(setting.callEffect call name).requests, rfl⟩

/-- The name table of a reachable state is what some history of requests leads to. -/
theorem Reachable.exists_history (reachable : setting.Reachable state) :
    ∃ requests, state.names = NameTable.serveAll setting.target requests {} := by
  induction reachable with
  | fresh =>
      exact ⟨[], rfl⟩
  | lowered before call inductionHypothesis =>
      obtain ⟨requests, history⟩ := inductionHypothesis
      obtain ⟨later, asked⟩ := setting.exists_requests_perform call _
      refine ⟨requests ++ later, ?_⟩
      rw [asked, history, NameTable.serveAll_append]
  | named before request inductionHypothesis =>
      obtain ⟨requests, history⟩ := inductionHypothesis
      refine ⟨requests ++ [request], ?_⟩
      rw [NameTable.serveAll_append, ← history]
      rfl
  | seen before symbol ref inductionHypothesis =>
      exact inductionHypothesis
  | moved before scopes inductionHypothesis =>
      exact inductionHypothesis
  | reported before diagnostics inductionHypothesis =>
      exact inductionHypothesis

theorem Reachable.consistent (reachable : setting.Reachable state) : state.names.Consistent := by
  obtain ⟨requests, history⟩ := reachable.exists_history
  rw [history]
  exact NameTable.consistent_empty.serveAll requests

theorem Reachable.performAll
    (reachable : setting.Reachable state) (calls : List LoweringCall) :
    setting.Reachable (setting.performAll calls state) := by
  induction calls generalizing state with
  | nil =>
      exact reachable
  | cons call rest inductionHypothesis =>
      exact inductionHypothesis (reachable.lowered call)

end NameLowering.Setting
