import NameLowering.Program.Build
import NameLowering.Proofs.Walk.Agreement
import NameLowering.Proofs.Walk.Balance
import NameLowering.Proofs.Walk.Reports

/-!
# Appended statements

Lowering is causal: statements that are appended to a file change nothing of what the statements
before them are lowered to, how they are numbered or what they are blamed for. The climbs from
a name may lead up to the node of the file, but see nothing there of its statements.
-/

namespace NameLowering

namespace Program

/-! ## Two files over the same nodes -/

/-- The statements of a source file, without those that are left out. -/
def presentStatements (statements : List NodeRef) : List NodeRef :=
  (NodeShape.group statements).children

/-- A reference that leads to a part of one of several statements, or nowhere. -/
def InStatements (program : Program) (statements : List NodeRef) (ref : NodeRef) : Prop :=
  ref = .absent ∨ ∃ statement ∈ presentStatements statements, program.tree.Below statement ref

/-- The node that a source file is. -/
def fileNode (base : Program) (statements : List NodeRef) : Node where
  kind := .sourceFile
  span := base.tree.hull (presentStatements statements)
  shape := .group statements

variable {base : Program} {statements appended : List NodeRef} {ref statement : NodeRef}

theorem presentStatements_append (statements appended : List NodeRef) :
    presentStatements (statements ++ appended) = presentStatements statements ++ presentStatements appended :=
  List.filter_append statements appended

theorem node?_addSourceFile (base : Program) (statements : List NodeRef) (ref : NodeRef) :
    (base.addSourceFile statements).2.tree.node? ref =
      if ref = (base.addSourceFile statements).1 then some (base.fileNode statements)
      else
        (base.tree.node? ref).map
          (Tree.adopt (base.addSourceFile statements).1 (presentStatements statements) ref) :=
  Tree.node?_add base.tree (base.fileNode statements) ref

theorem node?_fst_addSourceFile (base : Program) (statements : List NodeRef) :
    (base.addSourceFile statements).2.tree.node? (base.addSourceFile statements).1 =
      some (base.fileNode statements) := by
  rw [node?_addSourceFile, if_pos rfl]

section

variable (grown : (base.addSourceFile statements).2.tree.Grown)
  (unshared : (base.addSourceFile statements).2.tree.Unshared)
include grown

/-- The parts of a statement come before the node of the file. -/
theorem ne_fst_addSourceFile_of_below
    (isStatement : statement ∈ presentStatements statements)
    (below : (base.addSourceFile statements).2.tree.Below statement ref) :
    ref ≠ (base.addSourceFile statements).1 := by
  rintro rfl
  have before := grown.number_lt (node?_fst_addSourceFile base statements) isStatement
  have notAfter := grown.number_le_of_below below
  omega

include unshared

/-- A part of a statement is no other statement. -/
theorem eq_of_below_statement
    (isStatement : statement ∈ presentStatements statements) (isOther : ref ∈ presentStatements statements)
    (below : (base.addSourceFile statements).2.tree.Below statement ref) :
    statement = ref :=
  unshared.disjoint_children grown.acyclic (node?_fst_addSourceFile base statements) isStatement
    isOther below (Tree.Below.refl _ ref)

/-- The parent of a part of a statement is such a part too, or the file. -/
theorem parent_of_below_statement
    (isStatement : statement ∈ presentStatements statements)
    (below : (base.addSourceFile statements).2.tree.Below statement ref) :
    (base.addSourceFile statements).2.tree.parent ref = (base.addSourceFile statements).1 ∨
      (base.addSourceFile statements).2.tree.Below statement
        ((base.addSourceFile statements).2.tree.parent ref) := by
  obtain ⟨levels, descends⟩ := below
  cases descends with
  | here =>
      left
      exact grown.parent_eq unshared (node?_fst_addSourceFile base statements) isStatement
  | child above held isChild =>
      right
      rw [grown.parent_eq unshared held isChild]
      exact ⟨_, above⟩

end

section

variable (grown : (base.addSourceFile (statements ++ appended)).2.tree.Grown)
  (unshared : (base.addSourceFile (statements ++ appended)).2.tree.Unshared)
include grown unshared

/-- The parts of the first statements are the same nodes whether statements are appended or not. -/
theorem node?_addSourceFile_append
    (isStatement : statement ∈ presentStatements statements)
    (below : (base.addSourceFile (statements ++ appended)).2.tree.Below statement ref) :
    (base.addSourceFile (statements ++ appended)).2.tree.node? ref =
      (base.addSourceFile statements).2.tree.node? ref := by
  have isAmongAll : statement ∈ presentStatements (statements ++ appended) := by
    rw [presentStatements_append]
    exact List.mem_append_left _ isStatement
  have notFile := ne_fst_addSourceFile_of_below grown isAmongAll below
  have sameStatements : ref ∈ presentStatements (statements ++ appended) ↔ ref ∈ presentStatements statements := by
    constructor
    · intro isOther
      obtain rfl := eq_of_below_statement grown unshared isAmongAll isOther below
      exact isStatement
    · intro isOther
      rw [presentStatements_append]
      exact List.mem_append_left _ isOther
  have notShorterFile : ref ≠ (base.addSourceFile statements).1 := notFile
  rw [node?_addSourceFile, node?_addSourceFile, if_neg notFile, if_neg notShorterFile]
  unfold Tree.adopt
  simp only [sameStatements]
  rfl

/-- Files that start with the same statements share these. -/
theorem shares_addSourceFile_append :
    (base.addSourceFile (statements ++ appended)).2.Shares (base.addSourceFile statements).2
      ((base.addSourceFile (statements ++ appended)).2.InStatements statements) where
  fileName := rfl
  types := rfl
  symbols := rfl
  typeAt _ _ := rfl
  symbolAt _ _ := rfl
  contents := by
    rintro ref (rfl | ⟨statement, isStatement, below⟩)
    · rfl
    · rw [Tree.content?, node?_addSourceFile_append grown unshared isStatement below, Tree.content?]
  ambient _ _ _ _ _ _ _ := rfl
  downward := by
    rintro ref node position child (rfl | ⟨statement, isStatement, below⟩) held slot _
    · contradiction
    · cases child with
      | absent =>
          exact Or.inl rfl
      | node index =>
          have isChild : .node index ∈ node.shape.children :=
            NodeShape.mem_children_of_slot slot rfl
          exact Or.inr ⟨statement, isStatement, below.trans (.of_child held isChild)⟩
  around := by
    let file := (base.addSourceFile statements).1
    let longer := (base.addSourceFile (statements ++ appended)).2
    refine ⟨fun ref => longer.InStatements statements ref ∨ ref = file, ⟨?_, ?_⟩, fun _ => Or.inl⟩
    · rintro ref ((rfl | ⟨statement, isStatement, below⟩) | rfl)
      · exact .missing rfl rfl
      · exact .of_eq (node?_addSourceFile_append grown unshared isStatement below)
      · exact .held (node?_fst_addSourceFile base (statements ++ appended))
          (node?_fst_addSourceFile base statements)
          { kind := rfl, parent := rfl, calls := fun _ => rfl, iteratesOver := fun _ => rfl }
    · rintro ref ((rfl | ⟨statement, isStatement, below⟩) | rfl)
      · exact Or.inl (Or.inl rfl)
      · have isAmongAll : statement ∈ presentStatements (statements ++ appended) := by
          rw [presentStatements_append]
          exact List.mem_append_left _ isStatement
        rcases parent_of_below_statement grown unshared isAmongAll below with isFile | above
        · exact Or.inr isFile
        · exact Or.inl (Or.inr ⟨statement, isStatement, above⟩)
      · have orphan : longer.tree.parent file = .absent := by
          have held : longer.tree.node? file = some (base.fileNode (statements ++ appended)) :=
            node?_fst_addSourceFile base (statements ++ appended)
          exact Tree.parent_of_node? held
        rw [orphan]
        exact Or.inl (Or.inl rfl)

end

end Program

/-! ## Stops of appended statements -/

theorem Stop.joinAll_append_eq_ok_iff
    {stopsBelow : NodeRef → Except LoweringError (List Stop)} {first second : List NodeRef}
    {position : Nat} {stops : List Stop} :
    joinAll stopsBelow position (first ++ second) = .ok stops ↔
      ∃ earlier later,
        joinAll stopsBelow position first = .ok earlier ∧
          joinAll stopsBelow (position + first.length) second = .ok later ∧
          stops = earlier ++ later := by
  induction first generalizing position stops with
  | nil =>
      constructor
      · intro joined
        exact ⟨[], stops, rfl, joined, rfl⟩
      · rintro ⟨earlier, later, isEmpty, joined, rfl⟩
        obtain rfl := Except.ok.inj isEmpty
        exact joined
  | cons ref rest inductionHypothesis =>
      have position_add : position + (ref :: rest).length = position + 1 + rest.length := by
        rw [List.length_cons]
        omega
      rw [List.cons_append, joinAll, joinAll, append_eq_ok_iff, position_add]
      constructor
      · rintro ⟨atFirst, others, firstFound, othersFound, rfl⟩
        obtain ⟨earlier, later, earlierFound, laterFound, rfl⟩ :=
          inductionHypothesis.mp othersFound
        refine ⟨atFirst ++ earlier, later, ?_, laterFound, (List.append_assoc _ _ _).symm⟩
        exact append_eq_ok_iff.mpr ⟨atFirst, earlier, firstFound, earlierFound, rfl⟩
      · rintro ⟨earlier, later, earlierFound, laterFound, rfl⟩
        obtain ⟨atFirst, between, firstFound, betweenFound, rfl⟩ :=
          append_eq_ok_iff.mp earlierFound
        refine ⟨atFirst, between ++ later, firstFound, ?_, List.append_assoc _ _ _⟩
        exact inductionHypothesis.mpr ⟨between, later, betweenFound, laterFound, rfl⟩

/-! ## Runs that go on -/

namespace Walk

variable {setting : Setting}

theorem names_prefix_run (stops : List Stop) (walk : Walk) :
    walk.names.toList <+: (run setting stops walk).names.toList := by
  rw [run_names]
  exact List.prefix_append _ _

theorem diagnostics_prefix_run (stops : List Stop) (walk : Walk) :
    walk.state.diagnostics.toList <+: (run setting stops walk).state.diagnostics.toList := by
  rw [run_diagnostics]
  exact List.prefix_append _ _

theorem log_prefix_run (stops : List Stop) (walk : Walk) :
    walk.state.scopes.log.toList <+: (run setting stops walk).state.scopes.log.toList := by
  rw [run_log stops walk (UnitState.Extends.refl _)]
  exact List.prefix_append _ _

end Walk

theorem Scope.references_prefix
    {shorter longer : Scope} (mentions : shorter.mentions <+: longer.mentions)
    (symbol : SymbolNumber) :
    shorter.references symbol <+: longer.references symbol :=
  (mentions.filter _).map _

/-! ## Files -/

namespace Program

/-- A file with the statements of another one and further ones after them starts with all that the
other one is lowered to, and is blamed for the same first. Its scopes start with those of the other
one but for the scope of the file, which holds the references of the other file's scope first. -/
theorem lower_addSourceFile_append
    {base : Program} {statements appended : List NodeRef} {options : Options}
    {shorter longer : LoweredUnit}
    (grown : (base.addSourceFile (statements ++ appended)).2.tree.Grown)
    (unshared : (base.addSourceFile (statements ++ appended)).2.tree.Unshared)
    (shorterLowered : (base.addSourceFile statements).2.lower options = .ok shorter)
    (longerLowered :
      (base.addSourceFile (statements ++ appended)).2.lower options = .ok longer) :
    shorter.names.toList <+: longer.names.toList ∧
      shorter.diagnostics.toList <+: longer.diagnostics.toList ∧
      ∃ (closed laterClosed : Array Scope) (fileScope laterFileScope : Scope),
        shorter.scopes = closed.push fileScope ∧
          longer.scopes = laterClosed.push laterFileScope ∧
          closed.toList <+: laterClosed.toList ∧
          fileScope.kind = .file ∧ laterFileScope.kind = .file ∧
          ∀ symbol, fileScope.references symbol <+: laterFileScope.references symbol := by
  let file := (base.addSourceFile statements).1
  let setting : Setting := ⟨(base.addSourceFile statements).2, options.target⟩
  let longerSetting : Setting := ⟨(base.addSourceFile (statements ++ appended)).2, options.target⟩
  have shared := shares_addSourceFile_append grown unshared
  have inside (ref : NodeRef) (isStatement : ref ∈ presentStatements statements) :
      longerSetting.program.InStatements statements ref :=
    Or.inr ⟨ref, isStatement, Tree.Below.refl _ ref⟩
  have lowered : setting.lowerFile file = .ok shorter := shorterLowered
  have allLowered : longerSetting.lowerFile file = .ok longer := longerLowered
  obtain ⟨stops, joined, _, names, diagnostics, scopes⟩ :=
    Setting.exists_run_of_statements (node?_fst_addSourceFile base statements) rfl lowered
  obtain ⟨allStops, allJoined, _, allNames, allDiagnostics, allScopes⟩ :=
    Setting.exists_run_of_statements (node?_fst_addSourceFile base (statements ++ appended)) rfl
      allLowered
  -- The longer file makes the stops of the shorter one first.
  obtain ⟨earlier, later, earlierJoined, rfl⟩ :
      ∃ earlier later,
        Stop.joinAll (longerSetting.program.itinerary (Limits.treeDepth - 1)) 0
            (presentStatements statements) = .ok earlier ∧
          allStops = earlier ++ later := by
    change Stop.joinAll _ 0 (presentStatements (statements ++ appended)) = _ at allJoined
    rw [presentStatements_append] at allJoined
    obtain ⟨earlier, later, earlierJoined, _, same⟩ := Stop.joinAll_append_eq_ok_iff.mp allJoined
    exact ⟨earlier, later, earlierJoined, same⟩
  have sameStops : earlier = stops := by
    rw [Stop.joinAll_congr fun ref isStatement =>
      shared.itinerary_eq (Limits.treeDepth - 1) (inside ref isStatement)] at earlierJoined
    exact Except.ok.inj (earlierJoined.symm.trans joined)
  have goesOn :
      Walk.run longerSetting (earlier ++ later) (Walk.atFile file) =
        Walk.run longerSetting later (Walk.run setting stops (Walk.atFile file)) := by
    rw [Walk.run_append, shared.run_joinAll_eq inside earlierJoined, sameStops]
  rw [goesOn] at allNames allDiagnostics allScopes
  refine ⟨?_, ?_, _, _, _, _, scopes, allScopes, ?_, rfl, rfl, ?_⟩
  · rw [names, allNames]
    exact Walk.names_prefix_run later _
  · rw [diagnostics, allDiagnostics]
    exact Walk.diagnostics_prefix_run later _
  · exact Walk.closed_prefix_run later _
  · exact fun symbol => Scope.references_prefix (Walk.log_prefix_run later _) symbol

end Program

/-! ## A variable that is used again -/

/-- A function in which a variable is used, and another use of the variable. -/
def Program.functionAndUse : Program :=
  let (name, program) := Program.addIdentifier { fileName := "main.ts" } "f" 0
  let (use, program) := program.addIdentifier "a-b" 4
  let (_, program) := program.addDeclaration .functionDeclaration name [use]
  let (again, program) := program.addIdentifier "a-b" 9
  let (symbol, symbols) := program.symbols.add { name := "a-b", flags := .localVariable }
  (({ program with symbols }).bind use symbol).bind again symbol

def LoweredUnit.functionAlone : LoweredUnit where
  names := #[
    { source := .node 0
      lowered := .declaration { text := "f", sourceName := some "f", source := some (.node 0) } },
    { source := .node 1
      lowered := .expression (.ident
        { text := "____a_2Db", sourceName := some "a-b", symbol := some ⟨1⟩
          source := some (.node 1) }) }]
  diagnostics := #[]
  scopes := #[
    { kind := .function, id := 2, node := .node 2, mentions := [⟨⟨1⟩, .node 1⟩] },
    { kind := .file, id := 1, node := .node 4, mentions := [⟨⟨1⟩, .node 1⟩] }]

def LoweredUnit.functionAndUse : LoweredUnit where
  names := LoweredUnit.functionAlone.names.push
    { source := .node 3
      lowered := .expression (.ident
        { text := "____a_2Db", sourceName := some "a-b", symbol := some ⟨1⟩
          source := some (.node 3) }) }
  diagnostics := #[]
  scopes := #[
    { kind := .function, id := 2, node := .node 2, mentions := [⟨⟨1⟩, .node 1⟩] },
    { kind := .file, id := 1, node := .node 4
      mentions := [⟨⟨1⟩, .node 1⟩, ⟨⟨1⟩, .node 3⟩] }]

/-- The second use is appended to the references of the variable. -/
theorem Program.lower_addSourceFile_append_functionAndUse :
    (Program.functionAndUse.addSourceFile [.node 2]).2.lower {} = .ok .functionAlone ∧
      (Program.functionAndUse.addSourceFile [.node 2, .node 3]).2.lower {} =
        .ok .functionAndUse ∧
      LoweredUnit.functionAlone.names.toList <+: LoweredUnit.functionAndUse.names.toList ∧
      [NodeRef.node 1] <+: [.node 1, .node 3] := by
  have shorter :
      (Program.functionAndUse.addSourceFile [.node 2]).2.lower {} = .ok .functionAlone := by
    decide +kernel
  have longer :
      (Program.functionAndUse.addSourceFile ([.node 2] ++ [.node 3])).2.lower {} =
        .ok .functionAndUse := by
    decide +kernel
  have grown :
      (Program.functionAndUse.addSourceFile ([.node 2] ++ [.node 3])).2.tree.Grown :=
    Tree.Grown.of_orphans (by decide +kernel) (by decide +kernel)
  have unshared :
      (Program.functionAndUse.addSourceFile ([.node 2] ++ [.node 3])).2.tree.Unshared := by
    unfold Tree.Unshared
    decide +kernel
  obtain ⟨names, _, closed, laterClosed, fileScope, laterFileScope, scopes, laterScopes, _, _, _,
    references⟩ := lower_addSourceFile_append grown unshared shorter longer
  refine ⟨shorter, longer, names, ?_⟩
  have isFileScope : fileScope = LoweredUnit.functionAlone.scopes[1] := by
    have last := congrArg Array.back? scopes
    simpa [LoweredUnit.functionAlone] using last.symm
  have isLaterFileScope : laterFileScope = LoweredUnit.functionAndUse.scopes[1] := by
    have last := congrArg Array.back? laterScopes
    simpa [LoweredUnit.functionAndUse] using last.symm
  have ofVariable := references ⟨1⟩
  rw [isFileScope, isLaterFileScope] at ofVariable
  exact ofVariable

end NameLowering
