import NameLowering.Program.Build
import NameLowering.Proofs.Lowering.Outcomes
import NameLowering.Proofs.Lowering.Verdicts
import NameLowering.Proofs.Walk.Entries

/-!
# What a file is blamed for

The diagnostics of a file are about the uses of its names, in source order. Nothing else is blamed:
declarations that are walked over are not ambient, and what stands for the undefined value or a
library global has no effect.
-/

namespace NameLowering

namespace Setting

/-! ## What is due -/

/-- What is to be said of a name of a file: nothing of a declaration, nor of a name for which the
undefined value or a library global stands. -/
noncomputable def problemsOf (setting : Setting) (entry : LoweredName) : List Problem :=
  match entry.lowered with
  | .declaration _ => []
  | .expression value =>
    if setting.program.IsStandIn entry.source value then [] else setting.problemsDue entry.source

/-! ## Reports of a run -/

/-- What an event reports. -/
def diagnosticsFor (setting : Setting) (event : WalkEvent) : List Diagnostic :=
  event.source?.toList.flatMap fun ref =>
    (setting.effectFor event).problems.map (setting.program.report ref)

end Setting

namespace Walk

variable {setting : Setting}

theorem step_diagnostics (walk : Walk) (event : WalkEvent) :
    (walk.step setting event).state.diagnostics.toList =
      walk.state.diagnostics.toList ++ setting.diagnosticsFor event := by
  cases source : event.source? with
  | some ref =>
      simp [step_state walk source, Setting.diagnosticsFor, source, Setting.apply]
  | none =>
      cases event with
      | declared ref name | used ref name =>
          contradiction
      | opened kind ref =>
          simp [step, enter, Setting.diagnosticsFor, source]
      | closed =>
          simp [step, leave_state, Setting.diagnosticsFor, source]

/-- A run reports, stop by stop, what the events report. -/
theorem run_diagnostics (stops : List Stop) (walk : Walk) :
    (run setting stops walk).state.diagnostics.toList =
      walk.state.diagnostics.toList ++
        stops.flatMap fun stop => setting.diagnosticsFor stop.event :=
  run_gathers (fun walk => walk.state.diagnostics.toList) setting.diagnosticsFor
    (fun walk event _ => step_diagnostics walk event) stops walk (UnitState.Extends.refl _)

end Walk

/-! ## Names on an itinerary -/

/-- A use is less than a number of levels below the root, and a declaration is not ambient. -/
def Program.Locates (program : Program) (root : NodeRef) (levels : Nat) : WalkEvent → Prop
  | .used ref _ => ∃ depth < levels, program.tree.Descends root depth ref
  | .declared ref _ => program.isAmbientName ref = false
  | .opened .. | .closed => True

/-- A walk that has some levels left at a node has used up those above the node. -/
def Program.HasLeft (program : Program) (root : NodeRef) (levels left : Nat) (ref : NodeRef) :
    Prop :=
  ref.isPresent = true → ∃ depth, depth + left = levels ∧ program.tree.Descends root depth ref

theorem Program.locates_of_mem_itinerary
    {program : Program} {root : NodeRef} {levels : Nat} {stops : List Stop}
    (found : program.itinerary levels root = .ok stops) :
    ∀ stop ∈ stops, program.Locates root levels stop.event := by
  have used (left : Nat) (ref : NodeRef) (node : Node) (name : SourceName)
      (hasLeft : program.HasLeft root levels (left + 1) ref)
      (held : program.tree.node? ref = some node) (_ : node.shape = .identifier name) :
      program.Locates root levels (.used ref name) := by
    obtain ⟨depth, sum, descends⟩ := hasLeft (Tree.isPresent_of_node? held)
    exact ⟨depth, by omega, descends⟩
  have onward (left : Nat) (ref : NodeRef) (node : Node) (child : NodeRef)
      (hasLeft : program.HasLeft root levels (left + 1) ref)
      (held : program.tree.node? ref = some node) (visits : program.Visits node.shape child) :
      program.HasLeft root levels left child := by
    intro present
    obtain ⟨depth, sum, descends⟩ := hasLeft (Tree.isPresent_of_node? held)
    have isChild : child ∈ node.shape.children :=
      List.mem_filter.mpr ⟨mem_slots_of_visits visits, present⟩
    exact ⟨depth + 1, by omega, .child descends held isChild⟩
  have start : program.HasLeft root levels levels root :=
    fun _ => ⟨0, Nat.zero_add levels, .here⟩
  exact forall_mem_itinerary (fun _ _ => trivial) trivial used
    (fun _ _ _ _ _ _ _ _ _ notAmbient _ _ => notAmbient) onward start found

namespace Setting

variable {setting : Setting} {root : NodeRef}

theorem nameProblems_of_not_ambient {ref : NodeRef}
    (notAmbient : setting.program.isAmbientName ref = false) :
    setting.nameProblems ref = [] := by
  rw [nameProblems_eq]
  unfold Program.isAmbientName at notAmbient
  cases bound : setting.program.boundSymbol? ref with
  | none =>
      rfl
  | some symbol =>
      rw [bound, Option.any_some] at notAmbient
      simp [Symbol.nameProblems, notAmbient]

/-- A use that nothing stands in for is blamed for what is due, and turns into a placeholder just if
it is refused. -/
theorem judge_use
    (rooted : setting.program.tree.IsRootedAt root) (present : root.isPresent = true)
    {ref : NodeRef} {name : SourceName} {depth : Nat}
    (descends : setting.program.tree.Descends root depth ref) (bound : depth < Limits.treeDepth)
    (state : UnitState)
    (ordinary :
      ¬ setting.program.IsStandIn ref (setting.expressionFor ref name state).1) :
    (setting.expressionEffect ref name).problems = setting.problemsDue ref ∧
      (setting.program.IsRefused ref →
        (setting.expressionFor ref name state).1 = .ident (.placeholder (some ref))) ∧
      (¬ setting.program.IsRefused ref →
        ∀ ident, (setting.expressionFor ref name state).1 = .ident ident →
          ident.isPlaceholder = false) := by
  have withinClimb : depth ≤ Limits.treeClimb := by
    have limits : Limits.treeDepth ≤ Limits.treeClimb := by decide
    omega
  have callee := Tree.isCallee_iff rooted present descends withinClimb
  have iterated := Tree.isInIteratedCall_iff rooted descends withinClimb
  obtain ⟨⟨later, effects, silent⟩, form⟩ :=
    (setting.outcome_expressionFor ref name state).of_not_isStandIn ordinary
  have problems : (setting.expressionEffect ref name).problems = setting.problemsDue ref := by
    rw [effects, Effect.andThen, silent, List.append_nil]
    exact useEffect_problems callee iterated
  have refusedIff := lowerable_eq_false_iff callee
  cases lowerable : (setting.program.useVerdict ref).lowerable with
  | true =>
      rw [if_pos lowerable] at form
      have notRefused : ¬ setting.program.IsRefused ref := by
        rw [← refusedIff, lowerable]
        decide
      exact ⟨problems, fun refused => absurd refused notRefused, fun _ => form⟩
  | false =>
      rw [if_neg (by rw [lowerable]; decide)] at form
      exact ⟨problems, fun _ => form,
        fun notRefused => absurd (refusedIff.mp lowerable) notRefused⟩

/-- What an event of a tree reports is what is to be said of the name that it lowers. -/
theorem diagnosticsFor_eq
    (rooted : setting.program.tree.IsRootedAt root) (present : root.isPresent = true)
    {event : WalkEvent} (state : UnitState)
    (located : setting.program.Locates root Limits.treeDepth event) :
    setting.diagnosticsFor event =
      (setting.entryFor state event).toList.flatMap fun entry =>
        (setting.problemsOf entry).map (setting.program.report entry.source) := by
  cases event with
  | declared ref name =>
      have silent : (setting.variableEffect ref name).problems = [] :=
        nameProblems_of_not_ambient located
      simp [diagnosticsFor, effectFor, entryFor, WalkEvent.source?, problemsOf, silent]
  | used ref name =>
      obtain ⟨depth, bound, descends⟩ := located
      have problems :
          (setting.expressionEffect ref name).problems =
            setting.problemsOf
              { source := ref, lowered := .expression (setting.expressionFor ref name state).1 } := by
        simp only [problemsOf]
        by_cases standIn :
            setting.program.IsStandIn ref (setting.expressionFor ref name state).1
        · rw [if_pos standIn,
            (setting.outcome_expressionFor ref name state).effect_of_isStandIn standIn]
        · rw [if_neg standIn]
          exact (judge_use rooted present descends bound state standIn).1
      simp [diagnosticsFor, effectFor, entryFor, WalkEvent.source?, problems]
  | opened kind ref | closed =>
      rfl

/-- The diagnostics of a file are what is to be said of its names, name by name, and the uses that
nothing can stand for turn into placeholders. -/
theorem lowerFile_reports
    (rooted : setting.program.tree.IsRootedAt root)
    {file : LoweredUnit} (lowered : setting.lowerFile root = .ok file) :
    file.diagnostics.toList =
        (file.names.toList.flatMap fun entry =>
          (setting.problemsOf entry).map (setting.program.report entry.source)) ∧
      ∀ entry ∈ file.names, ∀ value, entry.lowered = .expression value →
        ¬ setting.program.IsStandIn entry.source value →
          (setting.program.IsRefused entry.source →
            value = .ident (.placeholder (some entry.source))) ∧
          (¬ setting.program.IsRefused entry.source →
            ∀ ident, value = .ident ident → ident.isPlaceholder = false) := by
  obtain ⟨isFile, stops, found, names, diagnostics, _⟩ := eq_run_of_lowerFile lowered
  obtain ⟨rootNode, rootHeld, _⟩ := Option.map_eq_some_iff.mp isFile
  have present : root.isPresent = true := Tree.isPresent_of_node? rootHeld
  have located := Program.locates_of_mem_itinerary found
  constructor
  · rw [diagnostics, Walk.run_diagnostics]
    exact (flatMap_names names fun stop member =>
      (diagnosticsFor_eq rooted present _ (located stop member)).symm).symm
  · intro entry member value isValue ordinary
    rw [← Array.mem_toList_iff, names, Walk.run_names] at member
    obtain ⟨stop, stopMember, isEntry⟩ := List.mem_filterMap.mp member
    have stopLocated := located stop stopMember
    cases event : stop.event with
    | declared ref name =>
        rw [event] at isEntry
        obtain rfl := Option.some.inj isEntry
        contradiction
    | used ref name =>
        rw [event] at isEntry stopLocated
        obtain rfl := Option.some.inj isEntry
        obtain rfl := Lowered.expression.inj isValue
        obtain ⟨depth, bound, descends⟩ := stopLocated
        exact (judge_use rooted present descends bound _ ordinary).2
    | opened kind ref | closed =>
        rw [event] at isEntry
        contradiction

end Setting

/-! ## A function of several results -/

/-- A function that returns several values at once, named without a call and called in
parentheses. -/
def Program.bareAndCalled : Program :=
  let (bare, program) := Program.addIdentifier { fileName := "main.ts" } "multi" 0
  let (callee, program) := program.addIdentifier "multi" 8
  let (parenthesized, program) := program.addGroup .parenthesizedExpression [callee]
  let (call, program) := program.addCall parenthesized []
  let (_, program) := program.addSourceFile [bare, call]
  let (result, types) := program.types.add (.intrinsic .any)
  let (base, types) := types.add (.function [] result [])
  let (multi, types) := types.addExtension .multiFunction base
  (({ program with types }).setType bare multi).setType callee multi

def LoweredUnit.bareAndCalled : LoweredUnit where
  names := #[
    { source := .node 0, lowered := .expression (.ident (.placeholder (some (.node 0)))) },
    { source := .node 1
      lowered := .expression (.ident
        { text := "multi", sourceName := some "multi", source := some (.node 1) }) }]
  diagnostics := #[Program.bareAndCalled.report (.node 0) .multiFunctionUse]
  scopes := #[{ kind := .file, id := 1, node := .node 4, mentions := [] }]

theorem Program.lower_bareAndCalled :
    Setting.lowerFile { program := .bareAndCalled } (.node 4) = .ok .bareAndCalled := by
  decide +kernel

theorem Program.bareAndCalled_isRootedAt : Program.bareAndCalled.tree.IsRootedAt (.node 4) where
  grown := Tree.Grown.of_orphans (by decide +kernel) (by decide +kernel)
  unshared := by
    unfold Tree.Unshared
    decide +kernel
  isRoot := by decide +kernel

/-- The first use is refused, and the second is not. -/
theorem Setting.lowerFile_reports_bareAndCalled :
    Program.bareAndCalled.tree.IsRootedAt (.node 4) ∧
      Setting.lowerFile { program := .bareAndCalled } (.node 4) = .ok .bareAndCalled ∧
      Program.bareAndCalled.IsRefused (.node 0) ∧ ¬ Program.bareAndCalled.IsRefused (.node 1) := by
  obtain ⟨_, judged⟩ :=
    Setting.lowerFile_reports Program.bareAndCalled_isRootedAt Program.lower_bareAndCalled
  have bare := judged LoweredUnit.bareAndCalled.names[0] (Array.getElem_mem _) _ rfl
    (by decide +kernel)
  have called := judged LoweredUnit.bareAndCalled.names[1] (Array.getElem_mem _) _ rfl
    (by decide +kernel)
  refine ⟨Program.bareAndCalled_isRootedAt, Program.lower_bareAndCalled, ?_, ?_⟩
  · by_contra accepted
    have lowered := bare.2 accepted _ rfl
    contradiction
  · intro refused
    have lowered := called.1 refused
    contradiction

end NameLowering
