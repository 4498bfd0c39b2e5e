import NameLowering.Proofs.Walk.Frames

/-!
# Scopes in balance

An itinerary opens and closes scopes in balance, in whatever way the nodes of the program refer to
each other. So a walk leaves the open scopes as it found them, and the scope of the file, which is
opened first, is closed last and holds all mentions.
-/

namespace NameLowering

/-! ## Balanced stops -/

/-- Stops that close the scopes that they open, innermost first. -/
inductive Stop.Balanced : List Stop → Prop
  | nil : Balanced []
  | name {stop : Stop} {ref : NodeRef} (source : stop.event.source? = some ref) :
      Balanced [stop]
  | append {earlier later : List Stop} (first : Balanced earlier) (second : Balanced later) :
      Balanced (earlier ++ later)
  | enclosed {path : List Nat} {kind : ScopeKind} {ref : NodeRef} {inner : List Stop}
      (inside : Balanced inner) :
      Balanced
        ({ path, event := .opened kind ref } :: inner ++ [{ path, event := .closed }])

namespace Stop

variable {stops : List Stop} {position : Nat}

theorem Balanced.under (balanced : Balanced stops) (position : Nat) :
    Balanced (stops.map (Stop.under position)) := by
  induction balanced with
  | nil =>
      exact .nil
  | name source =>
      exact .name source
  | append first second firstUnder secondUnder =>
      rw [List.map_append]
      exact .append firstUnder secondUnder
  | enclosed inside insideUnder =>
      rw [List.map_append, List.map_cons]
      exact .enclosed insideUnder

theorem Balanced.inScope (kind : NodeKind) (ref : NodeRef) (balanced : Balanced stops) :
    Balanced (Stop.enclosed kind ref stops) := by
  unfold Stop.enclosed
  cases kind.scopeKind? with
  | none => exact balanced
  | some scope => exact .enclosed balanced

theorem balanced_joinOne
    {stopsBelow : NodeRef → Except LoweringError (List Stop)} {ref : NodeRef}
    (below : ∀ stops, stopsBelow ref = .ok stops → Balanced stops)
    (joined : joinOne stopsBelow position ref = .ok stops) :
    Balanced stops := by
  obtain ⟨inner, found, rfl⟩ := joinOne_eq_ok_iff.mp joined
  exact (below inner found).under position

theorem balanced_joinAll
    {stopsBelow : NodeRef → Except LoweringError (List Stop)} {refs : List NodeRef}
    (below : ∀ ref stops, stopsBelow ref = .ok stops → Balanced stops)
    (joined : joinAll stopsBelow position refs = .ok stops) :
    Balanced stops := by
  induction refs generalizing position stops with
  | nil =>
      obtain rfl := Except.ok.inj joined
      exact .nil
  | cons ref rest inductionHypothesis =>
      obtain ⟨first, later, firstFound, laterFound, rfl⟩ := append_eq_ok_iff.mp joined
      exact .append (balanced_joinOne (below ref) firstFound) (inductionHypothesis laterFound)

end Stop

namespace Program

variable {program : Program} {levels : Nat} {ref : NodeRef} {stops : List Stop}

/-- An itinerary opens and closes scopes in balance. -/
theorem balanced_itinerary (found : program.itinerary levels ref = .ok stops) :
    Stop.Balanced stops := by
  induction levels generalizing ref stops with
  | zero =>
      obtain rfl := Except.ok.inj found
      exact .nil
  | succ levels inductionHypothesis =>
      have below (child : NodeRef) (stops : List Stop)
          (childFound : program.itinerary levels child = .ok stops) : Stop.Balanced stops :=
        inductionHypothesis childFound
      cases stopsFrom_of_itinerary found with
      | identifier =>
          exact .name rfl
      | member _ _ joined =>
          exact Stop.balanced_joinOne (below _) joined
      | ambient =>
          exact .nil
      | declaration _ _ _ named joined =>
          refine .append ?_ ((Stop.balanced_joinAll below joined).inScope _ ref)
          cases named with
          | identifier => exact .name rfl
          | other _ _ nameJoined => exact Stop.balanced_joinOne (below _) nameJoined
          | absent => exact .nil
      | container _ _ joined =>
          exact (Stop.balanced_joinAll below joined).inScope _ ref

end Program

/-! ## Runs of balanced stops -/

namespace Walk

variable {setting : Setting} {stops : List Stop}

/-- A balanced run leaves the open scopes as it found them. -/
theorem stack_run (balanced : Stop.Balanced stops) (walk : Walk) :
    (run setting stops walk).state.scopes.stack = walk.state.scopes.stack := by
  induction balanced generalizing walk with
  | nil =>
      rfl
  | name source =>
      exact step_stack walk source
  | append first second firstKept secondKept =>
      rw [run_append, secondKept, firstKept]
  | @enclosed path kind ref inner inside insideKept =>
      rw [List.cons_append, run_cons, run_append]
      change (leave _).state.scopes.stack = walk.state.scopes.stack
      rw [leave_state, insideKept]
      rfl

theorem closed_prefix_step (walk : Walk) (event : WalkEvent) :
    walk.closed.toList <+: (walk.step setting event).closed.toList := by
  cases event with
  | declared ref name | used ref name | opened kind ref =>
      exact List.prefix_rfl
  | closed =>
      simp only [step, leave]
      split
      · rw [Array.toList_push]
        exact List.prefix_append _ _
      · exact List.prefix_rfl

/-- Scopes that are closed stay so. -/
theorem closed_prefix_run (stops : List Stop) (walk : Walk) :
    walk.closed.toList <+: (run setting stops walk).closed.toList := by
  induction stops generalizing walk with
  | nil =>
      exact List.prefix_rfl
  | cons stop rest inductionHypothesis =>
      rw [run_cons]
      exact (closed_prefix_step walk stop.event).trans (inductionHypothesis _)

end Walk

/-! ## The scope of the file -/

/-- The walk that has opened the scope of a file and done nothing else. -/
def Walk.atFile (root : NodeRef) : Walk :=
  ({} : Walk).enter .file root

/-- The scope of a file after everything in it was walked over. -/
def Walk.fileScope (walk : Walk) (root : NodeRef) : Scope where
  kind := .file
  id := 1
  node := root
  mentions := walk.state.scopes.log.toList

/-- Closing the scope of a file that all the rest is inside of. -/
theorem Walk.run_enclosed_file
    (setting : Setting) (root : NodeRef) {stops : List Stop} (balanced : Stop.Balanced stops) :
    let inside := run setting stops (atFile root)
    let whole := run setting (Stop.enclosed .sourceFile root stops) {}
    whole.names = inside.names ∧
      whole.state.diagnostics = inside.state.diagnostics ∧
      whole.state.numbering = inside.state.numbering ∧
      whole.closed = inside.closed.push (inside.fileScope root) := by
  have isOpen :
      (run setting stops (atFile root)).state.scopes.stack =
        [{ kind := .file, id := 1, node := root, start := 0 }] :=
    stack_run balanced (atFile root)
  have outcome :
      run setting (Stop.enclosed .sourceFile root stops) {} =
        (run setting stops (atFile root)).leave :=
    run_enclosed_of_some rfl
  simp only [outcome, leave_state, leave_names, true_and]
  exact closed_leave isOpen (List.nil_append _).symm rfl

namespace Setting

variable {setting : Setting} {root : NodeRef} {node : Node} {statements : List NodeRef}
  {file : LoweredUnit}

/-- A file with a list of statements is lowered by a walk over these, in the scope of the file. -/
theorem exists_run_of_statements
    (held : setting.program.tree.node? root = some node) (shape : node.shape = .group statements)
    (lowered : setting.lowerFile root = .ok file) :
    ∃ stops,
      Stop.joinAll (setting.program.itinerary (Limits.treeDepth - 1)) 0
          (NodeShape.group statements).children = .ok stops ∧
        setting.program.itinerary Limits.treeDepth root =
          .ok (Stop.enclosed .sourceFile root stops) ∧
        let walk := Walk.run setting stops (Walk.atFile root)
        file.names = walk.names ∧
          file.diagnostics = walk.state.diagnostics ∧
          file.scopes = walk.closed.push (walk.fileScope root) := by
  obtain ⟨isFile, whole, found, names, diagnostics, scopes⟩ := eq_run_of_lowerFile lowered
  have kind : node.kind = .sourceFile := by
    rw [Tree.kind?, held, Option.map_some] at isFile
    exact Option.some.inj isFile
  have levels : Limits.treeDepth = Limits.treeDepth - 1 + 1 := rfl
  have unfolded := found
  rw [levels] at unfolded
  simp only [Program.itinerary, held, shape, kind] at unfolded
  cases joined :
      Stop.joinAll (setting.program.itinerary (Limits.treeDepth - 1)) 0
        (NodeShape.group statements).children with
  | error error =>
      rw [joined] at unfolded
      contradiction
  | ok stops =>
      rw [joined] at unfolded
      obtain rfl := Except.ok.inj unfolded
      have balanced : Stop.Balanced stops :=
        Stop.balanced_joinAll (fun _ _ => Program.balanced_itinerary) joined
      obtain ⟨sameNames, sameDiagnostics, _, closed⟩ :=
        Walk.run_enclosed_file setting root balanced
      exact ⟨stops, rfl, found, names.trans sameNames, diagnostics.trans sameDiagnostics,
        scopes.trans closed⟩

end Setting

end NameLowering
