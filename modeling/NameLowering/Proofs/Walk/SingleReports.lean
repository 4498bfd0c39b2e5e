import NameLowering.Program.Build
import NameLowering.Proofs.Walk.Reports

/-!
# Reports on single names

What a file is blamed for at a name does not depend on the names before it: lowered on its own in a
fresh state, the name is blamed for the same. Every report covers the span of its name, and ends
within the range of positions even if the bounds of the span are in reverse order.
-/

namespace NameLowering

/-! ## Spans of reports -/

/-- The length of a span leads from its start to the greater one of its bounds. -/
theorem Span.toNat_start_add_toNat_length (span : Span) :
    span.start.toNat + span.length.toNat = max span.start.toNat span.stop.toNat := by
  unfold length
  by_cases inOrder : span.start ≤ span.stop
  · have bounds : span.start.toNat ≤ span.stop.toNat := UInt32.le_iff_toNat_le.mp inOrder
    rw [if_pos inOrder, UInt32.toNat_sub_of_le _ _ inOrder]
    omega
  · have bounds : ¬ span.start.toNat ≤ span.stop.toNat :=
      fun le => inOrder (UInt32.le_iff_toNat_le.mpr le)
    rw [if_neg inOrder, UInt32.toNat_zero]
    omega

/-- A diagnostic covers a span, without an overflow at its end. -/
structure Diagnostic.Covers (diagnostic : Diagnostic) (span : Span) : Prop where
  start : diagnostic.start = span.start
  stop : diagnostic.stop.toNat = max span.start.toNat span.stop.toNat
  bounded : diagnostic.start.toNat + diagnostic.length.toNat = diagnostic.stop.toNat

theorem Program.covers_report
    {program : Program} {ref : NodeRef} {node : Node} (held : program.tree.node? ref = some node)
    (problem : Problem) :
    (program.report ref problem).Covers node.span := by
  have start : (program.report ref problem).start = node.span.start := by
    simp [report, Rule.report, held]
  have length : (program.report ref problem).length = node.span.length := by
    simp [report, Rule.report, held]
  have sum := node.span.toNat_start_add_toNat_length
  have inRange : max node.span.start.toNat node.span.stop.toNat < 2 ^ 32 :=
    Nat.max_lt.mpr ⟨node.span.start.toNat_lt, node.span.stop.toNat_lt⟩
  have stop :
      (program.report ref problem).stop.toNat =
        max node.span.start.toNat node.span.stop.toNat := by
    rw [Diagnostic.stop, UInt32.toNat_add, start, length, sum, Nat.mod_eq_of_lt inRange]
  exact ⟨start, stop, by rw [stop, start, length, sum]⟩

/-! ## Names on their own -/

namespace Setting

/-- What a name of a file is blamed for when it is lowered on its own in a fresh state. -/
def reportsAlone (setting : Setting) (entry : LoweredName) : List Diagnostic :=
  match entry.lowered with
  | .declaration _ => (setting.lowerDeclared entry.source {}).2.diagnostics.toList
  | .expression _ => (setting.lowerExpression entry.source {}).2.diagnostics.toList

variable {setting : Setting} {root : NodeRef} {entry : LoweredName} {file : LoweredUnit}

theorem diagnostics_apply_fresh (ref : NodeRef) (effect : Effect) :
    (setting.apply ref effect {}).diagnostics.toList =
      effect.problems.map (setting.program.report ref) := by
  simp [apply]

/-- Lowered on its own, a name is blamed for what its event reports. -/
theorem reportsAlone_of_entryFor
    {event : WalkEvent} {state : UnitState} (named : event.IsNamed setting.program)
    (isEntry : setting.entryFor state event = some entry) :
    setting.reportsAlone entry = setting.diagnosticsFor event := by
  cases event with
  | declared ref name =>
      obtain rfl := Option.some.inj isEntry
      have held := Program.expectName_eq_ok_iff.mpr named
      simp only [reportsAlone, lowerDeclared, atName, held, variableFor_eq]
      rw [diagnostics_apply_fresh]
      simp [diagnosticsFor, WalkEvent.source?, effectFor]
  | used ref name =>
      obtain rfl := Option.some.inj isEntry
      have held := Program.expectName_eq_ok_iff.mpr named
      simp only [reportsAlone, lowerExpression, atName, held, expressionFor_snd]
      rw [diagnostics_apply_fresh]
      simp [diagnosticsFor, WalkEvent.source?, effectFor]
  | opened kind ref | closed =>
      contradiction

/-- An event without an entry reports nothing. -/
theorem diagnosticsFor_of_entryFor_eq_none
    {event : WalkEvent} {state : UnitState} (noEntry : setting.entryFor state event = none) :
    setting.diagnosticsFor event = [] := by
  cases event with
  | declared ref name | used ref name => contradiction
  | opened kind ref | closed => rfl

/-- The declarations that a walk comes to are not ambient, so nothing is reported at their names. -/
theorem diagnosticsFor_declared
    {ref : NodeRef} {name : SourceName} (notAmbient : setting.program.isAmbientName ref = false) :
    setting.diagnosticsFor (.declared ref name) = [] := by
  simp [diagnosticsFor, WalkEvent.source?, effectFor, variableEffect,
    nameProblems_of_not_ambient notAmbient]

/-- The node of a name that an event lowers. -/
theorem exists_node_of_entryFor
    {event : WalkEvent} {state : UnitState} (named : event.IsNamed setting.program)
    (isEntry : setting.entryFor state event = some entry) :
    ∃ node, setting.program.tree.node? entry.source = some node := by
  cases event with
  | declared ref name | used ref name =>
      obtain rfl := Option.some.inj isEntry
      obtain ⟨node, held, _⟩ := Option.bind_eq_some_iff.mp named
      exact ⟨node, held⟩
  | opened kind ref | closed =>
      contradiction

theorem exists_covers_of_mem_diagnosticsFor
    {event : WalkEvent} {state : UnitState} (named : event.IsNamed setting.program)
    (isEntry : setting.entryFor state event = some entry) {diagnostic : Diagnostic}
    (member : diagnostic ∈ setting.diagnosticsFor event) :
    ∃ node, setting.program.tree.node? entry.source = some node ∧
      diagnostic.Covers node.span := by
  obtain ⟨node, held⟩ := exists_node_of_entryFor named isEntry
  have source : event.source? = some entry.source := by
    rw [← entryFor_source setting state, isEntry, Option.map_some]
  simp only [diagnosticsFor, source, Option.toList_some, List.flatMap_singleton,
    List.mem_map] at member
  obtain ⟨problem, _, rfl⟩ := member
  exact ⟨node, held, Program.covers_report held problem⟩

/-! ## Files -/

/-- The diagnostics of a file are those of its names, each lowered on its own. Declarations have
none, and each diagnostic covers the span of its name. -/
theorem lowerFile_reports_alone (lowered : setting.lowerFile root = .ok file) :
    file.diagnostics.toList = file.names.toList.flatMap setting.reportsAlone ∧
      ∀ entry ∈ file.names,
        (∀ ident, entry.lowered = .declaration ident → setting.reportsAlone entry = []) ∧
          ∀ diagnostic ∈ setting.reportsAlone entry,
            ∃ node, setting.program.tree.node? entry.source = some node ∧
              diagnostic.Covers node.span := by
  obtain ⟨_, stops, found, names, diagnostics, _⟩ := eq_run_of_lowerFile lowered
  have named := Program.isNamed_of_mem_itinerary found
  have located := Program.locates_of_mem_itinerary found
  constructor
  · rw [diagnostics, Walk.run_diagnostics]
    refine (flatMap_names names fun stop member => ?_).symm
    cases isEntry : setting.entryFor (Walk.run setting stops {}).state stop.event with
    | none =>
        exact (diagnosticsFor_of_entryFor_eq_none isEntry).symm
    | some entry =>
        simpa using reportsAlone_of_entryFor (named stop member) isEntry
  · intro entry member
    rw [← Array.mem_toList_iff, names, Walk.run_names] at member
    obtain ⟨stop, stopMember, isEntry⟩ := List.mem_filterMap.mp member
    rw [reportsAlone_of_entryFor (named stop stopMember) isEntry]
    constructor
    · intro ident isDeclaration
      have stopLocated := located stop stopMember
      cases event : stop.event with
      | declared ref name =>
          rw [event] at stopLocated
          exact diagnosticsFor_declared stopLocated
      | used ref name =>
          rw [event] at isEntry
          obtain rfl := Option.some.inj isEntry
          contradiction
      | opened kind ref | closed =>
          rw [event] at isEntry
          contradiction
    · intro diagnostic isReported
      exact exists_covers_of_mem_diagnosticsFor (named stop stopMember) isEntry isReported

end Setting

/-! ## A span with its bounds in reverse order -/

/-- Two uses of an ambient variable with a name that no target accepts; the span of the second is
reversed. -/
def Program.reversedSpan : Program :=
  let (first, program) := Program.addIdentifier { fileName := "main.ts" } "a-b" 0
  let (second, program) := program.addNode
    { kind := .identifier
      span := { start := 9, stop := 4 }
      shape := .identifier { text := "a-b" } }
  let (_, program) := program.addSourceFile [first, second]
  let (symbol, symbols) :=
    program.symbols.add { name := "a-b", flags := SymbolFlags.localVariable.union .ambient }
  (({ program with symbols }).bind first symbol).bind second symbol

def LoweredUnit.reversedSpan : LoweredUnit where
  names := #[
    { source := .node 0
      lowered := .expression (.ident
        { text := "____a_2Db", sourceName := some "a-b", symbol := some ⟨1⟩
          source := some (.node 0) }) },
    { source := .node 1
      lowered := .expression (.ident
        { text := "____a_2Db", sourceName := some "a-b", symbol := some ⟨1⟩
          source := some (.node 1) }) }]
  diagnostics := #[
    Program.reversedSpan.report (.node 0) (.ambientName "a-b"),
    Program.reversedSpan.report (.node 1) (.ambientName "a-b")]
  scopes := #[
    { kind := .file, id := 1, node := .node 2
      mentions := [⟨⟨1⟩, .node 0⟩, ⟨⟨1⟩, .node 1⟩] }]

theorem Program.lower_reversedSpan :
    Setting.lowerFile { program := .reversedSpan } (.node 2) = .ok .reversedSpan := by
  decide +kernel

/-- The second report is the one that the second use has on its own, and it is empty. -/
theorem Setting.lowerFile_reports_alone_reversedSpan :
    Setting.lowerFile { program := .reversedSpan } (.node 2) = .ok .reversedSpan ∧
      LoweredUnit.reversedSpan.diagnostics.toList =
        LoweredUnit.reversedSpan.names.toList.flatMap
          (Setting.reportsAlone { program := .reversedSpan }) ∧
      (Program.reversedSpan.report (.node 1) (.ambientName "a-b")).Covers
        { start := 9, stop := 4 } := by
  obtain ⟨sum, single⟩ := Setting.lowerFile_reports_alone Program.lower_reversedSpan
  refine ⟨Program.lower_reversedSpan, sum, ?_⟩
  obtain ⟨_, covered⟩ := single LoweredUnit.reversedSpan.names[1] (Array.getElem_mem _)
  obtain ⟨node, held, covers⟩ :=
    covered (Program.reversedSpan.report (.node 1) (.ambientName "a-b")) (by decide +kernel)
  have span : node.span = { start := 9, stop := 4 } := by
    have same : (Program.reversedSpan.tree.node? (.node 1)).map Node.span =
        some { start := 9, stop := 4 } := rfl
    exact Option.some.inj ((congrArg (Option.map Node.span) held).symm.trans same)
  rwa [span] at covers

end NameLowering
