import NameLowering.Program.Build
import NameLowering.Proofs.References.Recording
import NameLowering.Proofs.Walk.Frames
import NameLowering.Proofs.Walk.SourceOrder

/-!
# Contents of scopes

The scopes of a file hold the mentions in the subtrees of the nodes that opened them. The name that
a declaration binds belongs to the scope around the declaration.
-/

namespace NameLowering

namespace Setting

/-! ## The scopes of a file -/

/-- Every scope of a file holds the mentions of the names that its node encloses, symbol by symbol in
the order of the source. -/
theorem lowerFile_scopes
    (setting : Setting) {root : NodeRef} (isForest : setting.program.IsForest)
    (acyclic : setting.program.tree.Acyclic)
    (isFile : setting.program.tree.kind? root = some .sourceFile) :
    ∃ file, setting.lowerFile root = .ok file ∧
      file.sources.Pairwise (setting.program.Precedes root) ∧
      ∀ scope ∈ file.scopes,
        let inside :=
          setting.program.tree.mentionsInside scope.node (setting.program.mentionsIn file)
        scope.referencedSymbols.map Prod.fst = (inside.map Mention.symbol).eraseDups ∧
          ∀ symbol nodes, (symbol, nodes) ∈ scope.referencedSymbols ↔
            symbol ∈ inside.map Mention.symbol ∧
              nodes = (inside.filter (·.symbol == symbol)).map Mention.node := by
  obtain ⟨rootNode, rootHeld, _⟩ := Option.map_eq_some_iff.mp isFile
  obtain ⟨stops, found, charts⟩ := isForest.charted Limits.treeDepth root rootNode rootHeld
  obtain ⟨file, lowered⟩ : ∃ file, setting.lowerFile root = .ok file :=
    ⟨_, by rw [lowerFile_eq_run isFile, found]; rfl⟩
  obtain ⟨_, sameStops, sameFound, names, _, scopes⟩ := eq_run_of_lowerFile lowered
  obtain rfl := Except.ok.inj (found.symm.trans sameFound)
  refine ⟨file, lowered, ?_, ?_⟩
  · have sources : file.sources = (Stop.places stops).map Place.ref := by
      rw [LoweredUnit.sources, names, Walk.run_names]
      exact sources_of_entries stops _
    rw [sources]
    exact Program.IsTree.precedes_places charts
  · intro scope member
    have frames := frames_itinerary isForest acyclic Limits.treeDepth root stops found
    obtain ⟨closed, allClosed, contents⟩ :=
      frames.closes {} (Walk.run setting stops {}).state (UnitState.Extends.refl _)
    have isClosed : scope ∈ closed := by
      rw [scopes, ← Array.mem_toList_iff, allClosed] at member
      exact member
    have mentions :
        scope.mentions =
          setting.program.tree.mentionsInside scope.node (setting.program.mentionsIn file) := by
      rw [mentionsIn_eq names]
      exact (contents scope isClosed).2
    rw [← mentions]
    exact ⟨scope.map_fst_referencedSymbols, scope.mem_referencedSymbols_iff⟩

end Setting

/-! ## A function in a namespace -/

/-- A namespace with an exported function that reads an exported variable. -/
def Program.functionInNamespace : Program :=
  let (functionName, program) := Program.addIdentifier { fileName := "main.ts" } "f" 0
  let (read, program) := program.addIdentifier "x" 4
  let (function, program) := program.addDeclaration .functionDeclaration functionName [read]
  let (namespaceName, program) := program.addIdentifier "N" 8
  let (declared, program) := program.addDeclaration .moduleDeclaration namespaceName [function]
  let (_, program) := program.addSourceFile [declared]
  let (container, symbols) := program.symbols.add { name := "N", flags := .namespaceDeclaration }
  let (method, symbols) :=
    symbols.add { name := "f", flags := SymbolFlags.function.union .exported, parent := container }
  let (field, symbols) :=
    symbols.add
      { name := "x", flags := SymbolFlags.localVariable.union .exported, parent := container }
  ((({ program with symbols }).bind functionName method).bind read field).bind namespaceName
    container

def LoweredUnit.functionInNamespace : LoweredUnit where
  names := #[
    { source := .node 3
      lowered := .declaration
        { text := "N", sourceName := some "N", symbol := some ⟨1⟩, source := some (.node 3) } },
    { source := .node 0
      lowered := .declaration
        { text := "f", sourceName := some "f", symbol := some ⟨2⟩, source := some (.node 0) } },
    { source := .node 1
      lowered := .expression
        (.index (.ident { text := "N", sourceName := some "N", symbol := some ⟨1⟩ }) (.text "x")
          (some (.node 1))) }]
  diagnostics := #[]
  scopes := #[
    { kind := .function, id := 3, node := .node 2
      mentions := [⟨⟨3⟩, .node 1⟩, ⟨⟨1⟩, .node 1⟩] },
    { kind := .namespaceBody, id := 2, node := .node 4
      mentions := [⟨⟨2⟩, .node 0⟩, ⟨⟨3⟩, .node 1⟩, ⟨⟨1⟩, .node 1⟩] },
    { kind := .file, id := 1, node := .node 5
      mentions := [⟨⟨1⟩, .node 3⟩, ⟨⟨2⟩, .node 0⟩, ⟨⟨3⟩, .node 1⟩, ⟨⟨1⟩, .node 1⟩] }]

theorem Program.lower_functionInNamespace :
    Setting.lowerFile { program := .functionInNamespace } (.node 5) =
      .ok .functionInNamespace := by
  decide +kernel

theorem Program.functionInNamespace_isForest : Program.functionInNamespace.IsForest where
  filled := by decide +kernel
  exist := by decide +kernel
  unshared := by
    unfold Tree.Unshared
    decide +kernel
  identifiers := by decide +kernel

theorem Program.functionInNamespace_acyclic : Program.functionInNamespace.tree.Acyclic :=
  (Tree.Grown.of_orphans (by decide +kernel) (by decide +kernel)).acyclic

/-- The scope of the namespace holds the function, the variable and, since the variable is a field of
its table, the namespace itself; the declaration of the namespace is outside. -/
theorem Setting.lowerFile_scopes_functionInNamespace :
    Program.functionInNamespace.IsForest ∧ Program.functionInNamespace.tree.Acyclic ∧
      Program.functionInNamespace.tree.kind? (.node 5) = some .sourceFile ∧
      ((Program.functionInNamespace.tree.mentionsInside (.node 4)
        (Program.functionInNamespace.mentionsIn .functionInNamespace)).map
          Mention.symbol).eraseDups = [⟨2⟩, ⟨3⟩, ⟨1⟩] := by
  have isFile : Program.functionInNamespace.tree.kind? (.node 5) = some .sourceFile := by rfl
  obtain ⟨file, lowered, _, contents⟩ :=
    Setting.lowerFile_scopes { program := .functionInNamespace }
      Program.functionInNamespace_isForest Program.functionInNamespace_acyclic isFile
  obtain rfl := Except.ok.inj (Program.lower_functionInNamespace.symm.trans lowered)
  have keys := (contents LoweredUnit.functionInNamespace.scopes[1] (Array.getElem_mem _)).1
  refine ⟨Program.functionInNamespace_isForest, Program.functionInNamespace_acyclic, isFile, ?_⟩
  exact keys.symm.trans (by decide +kernel)

end NameLowering
