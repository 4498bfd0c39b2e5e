import NameLowering.Proofs.Lowering.Outcomes
import NameLowering.Proofs.Lowering.Reachable
import NameLowering.Proofs.Names.ExportsTable

/-!
# Slots of exports

An exported symbol lives in a slot: a table with a key. Over a whole run of calls, two accesses name
the same table exactly if both symbols are exported from module files, or both from namespaces or
enumerations of one name, and they have the same key exactly if the symbols have one name. So a
namespace never stands for the exports of the file, whatever it is called.
-/

namespace NameLowering

/-- The use of an exported name that a run of calls lowered to the field of a table. -/
structure Setting.ExportAccess
    (setting : Setting) (calls : List LoweringCall) (state : UnitState) where
  member : NodeRef
  scope : ExportScope
  symbol : Symbol
  container : Symbol
  table : Lua.Expr
  key : Lua.Expr
  source : Option NodeRef
  answered :
    ⟨.expression member, .expr (.ok (.index table key source))⟩ ∈ setting.answers calls state
  exported : setting.program.exportScopeAt? member = some scope
  bound : setting.program.boundSymbol? member = some symbol
  held : setting.program.symbols.get? scope.container = some container

namespace Setting

variable {setting : Setting} {calls : List LoweringCall} {state : UnitState}

/-! ## One access -/

/-- The text of the table that an access goes to: the fixed name for a module file, and for other
containers a mangled name that the state at the end of the run knows. -/
def ExportAccess.IsTableText (access : setting.ExportAccess calls state) (text : String) : Prop :=
  if access.scope.kind = .sourceFile then
    text = Lua.exportsTable
  else
    NameTable.Knows setting.target (setting.performAll calls state).names
      ⟨.mangle access.container.name, text⟩

/-- An answer of a run was given to a name, at some moment of the run. -/
theorem exists_expressionFor_of_answers
    {ref : NodeRef} {value : Lua.Expr}
    (answered : ⟨.expression ref, .expr (.ok value)⟩ ∈ setting.answers calls state) :
    ∃ name moment,
      value = (setting.expressionFor ref name moment).1 ∧
        (setting.apply ref (setting.expressionEffect ref name) moment).Extends
          (setting.performAll calls state) := by
  obtain ⟨moment, given, extension⟩ := exists_moment_of_mem_answers answered
  cases named : setting.program.expectName ref with
  | error error =>
      rw [perform_of_error named] at given
      have sameResult : Except.ok value = Except.error error := LoweringAnswer.expr.inj given
      contradiction
  | ok name =>
      rw [perform_of_name named] at given extension
      exact ⟨name, moment, Except.ok.inj (LoweringAnswer.expr.inj given), extension⟩

theorem ExportAccess.exists_table
    (reachable : setting.Reachable state) (access : setting.ExportAccess calls state) :
    ∃ table : Lua.Ident,
      access.table = .ident table ∧ access.key = .text access.symbol.name ∧
        access.IsTableText table.text := by
  obtain ⟨member, scope, symbol, container, table, key, source, answered, exported, bound, held⟩ :=
    access
  obtain ⟨name, moment, lowered, extension⟩ := exists_expressionFor_of_answers answered
  have consistent := (reachable.performAll calls).consistent
  have outcome := setting.outcome_expressionFor member name moment
  rw [← lowered] at outcome
  generalize setting.expressionEffect member name = effect at outcome extension
  cases outcome with
  | replaced notExported _ _ =>
      rw [exported] at notExported
      contradiction
  | fileExport exportedTo kind boundTo _ =>
      have sameScope := Option.some.inj (exported.symm.trans exportedTo)
      have sameSymbol := Option.some.inj (bound.symm.trans boundTo)
      subst sameScope sameSymbol
      refine ⟨_, rfl, rfl, ?_⟩
      rw [IsTableText, if_pos kind]
  | memberExport exportedTo kind boundTo heldBy _ =>
      have sameScope := Option.some.inj (exported.symm.trans exportedTo)
      have sameSymbol := Option.some.inj (bound.symm.trans boundTo)
      subst sameScope sameSymbol
      have sameContainer := Option.some.inj (held.symm.trans heldBy)
      subst sameContainer
      refine ⟨_, rfl, rfl, ?_⟩
      rw [apply_andThen] at extension
      rw [IsTableText, if_neg kind]
      exact NameTable.knows_of_extends consistent extension.names

/-! ## Two accesses -/

theorem ExportAccess.ne_exportsTable
    (reachable : setting.Reachable state) (access : setting.ExportAccess calls state)
    {text : String} (isText : access.IsTableText text) (kind : access.scope.kind ≠ .sourceFile) :
    text ≠ Lua.exportsTable := by
  obtain ⟨requests, history⟩ := (reachable.performAll calls).exists_history
  rw [IsTableText, if_neg kind, history] at isText
  exact isText.output_ne_exportsTable

/-- Two tables have one text exactly if both hold the exports of module files, or both are
containers of one name. -/
theorem ExportAccess.text_eq_iff
    (reachable : setting.Reachable state) (first second : setting.ExportAccess calls state)
    {firstText secondText : String} (firstIsText : first.IsTableText firstText)
    (secondIsText : second.IsTableText secondText) :
    firstText = secondText ↔
      (first.scope.kind = .sourceFile ∧ second.scope.kind = .sourceFile) ∨
        (first.scope.kind ≠ .sourceFile ∧ second.scope.kind ≠ .sourceFile ∧
          first.container.name = second.container.name) := by
  by_cases firstKind : first.scope.kind = .sourceFile
  · have firstFixed := firstIsText
    rw [IsTableText, if_pos firstKind] at firstFixed
    by_cases secondKind : second.scope.kind = .sourceFile
    · have secondFixed := secondIsText
      rw [IsTableText, if_pos secondKind] at secondFixed
      simp [firstKind, secondKind, firstFixed, secondFixed]
    · have different := second.ne_exportsTable reachable secondIsText secondKind
      rw [firstFixed]
      simp [firstKind, secondKind, different.symm]
  · by_cases secondKind : second.scope.kind = .sourceFile
    · have secondFixed := secondIsText
      rw [IsTableText, if_pos secondKind] at secondFixed
      have different := first.ne_exportsTable reachable firstIsText firstKind
      rw [secondFixed]
      simp [firstKind, secondKind, different]
    · have firstKnown := firstIsText
      have secondKnown := secondIsText
      rw [IsTableText, if_neg firstKind] at firstKnown
      rw [IsTableText, if_neg secondKind] at secondKnown
      have consistent := (reachable.performAll calls).consistent
      rw [firstKnown.output_eq_iff_of_mangle consistent secondKnown rfl rfl]
      simp [firstKind, secondKind]

/-- Over a run of calls from any state that a unit may come to, slots of exports are the same only
if they belong to containers of one sort and name and to symbols of one name, and no namespace or
enumeration is accessed as the table of exports. -/
theorem export_slots_apart
    (setting : Setting) (reachable : setting.Reachable state) (calls : List LoweringCall) :
    ∀ first second : setting.ExportAccess calls state,
      ∃ firstTable secondTable : Lua.Ident, ∃ firstKey secondKey : String,
        first.table = .ident firstTable ∧ first.key = .text firstKey ∧
          second.table = .ident secondTable ∧ second.key = .text secondKey ∧
          (firstTable.text = secondTable.text ↔
            (first.scope.kind = .sourceFile ∧ second.scope.kind = .sourceFile) ∨
              (first.scope.kind ≠ .sourceFile ∧ second.scope.kind ≠ .sourceFile ∧
                first.container.name = second.container.name)) ∧
          (firstKey = secondKey ↔ first.symbol.name = second.symbol.name) ∧
          (first.scope.kind ≠ .sourceFile → firstTable.text ≠ Lua.exportsTable) := by
  intro first second
  obtain ⟨firstTable, firstIsTable, firstIsKey, firstText⟩ := first.exists_table reachable
  obtain ⟨secondTable, secondIsTable, secondIsKey, secondText⟩ := second.exists_table reachable
  refine ⟨firstTable, secondTable, first.symbol.name, second.symbol.name, firstIsTable, firstIsKey,
    secondIsTable, secondIsKey, ?_, Iff.rfl, ?_⟩
  · exact first.text_eq_iff reachable second firstText secondText
  · exact first.ne_exportsTable reachable firstText

end Setting

/-! ## A namespace with the name of the table of exports -/

/-- Two references to variables of one name. One is exported from the file and the other from a
namespace that is called what the table of exports is called. -/
def Program.namespaceOfMark : Program :=
  let (inFile, program) := Program.addIdentifier { fileName := "main.ts" } "foo" 0
  let (inNamespace, program) := program.addIdentifier "foo" 4
  let (file, symbols) := program.symbols.add { name := "main.ts", flags := .sourceFile }
  let (space, symbols) :=
    symbols.add { name := Lua.exportsTable, flags := .namespaceDeclaration }
  let (ofFile, symbols) :=
    symbols.add
      { name := "foo", flags := SymbolFlags.localVariable.union .exported, parent := file }
  let (ofNamespace, symbols) :=
    symbols.add
      { name := "foo", flags := SymbolFlags.localVariable.union .exported, parent := space }
  ({ program with symbols }.bind inFile ofFile).bind inNamespace ofNamespace

theorem Program.answers_namespaceOfMark :
    Setting.answers { program := .namespaceOfMark }
        [.expression (.node 0), .expression (.node 1)] {} =
      [⟨.expression (.node 0), .expr (.ok (.index
          (.ident { text := "____exports" }) (.text "foo") (some (.node 0))))⟩,
        ⟨.expression (.node 1), .expr (.ok (.index
          (.ident
            { text := "________exports", sourceName := some "____exports", symbol := some ⟨3⟩ })
          (.text "foo") (some (.node 1))))⟩] := by
  decide +kernel

def Setting.accessInFile :
    Setting.ExportAccess { program := .namespaceOfMark }
      [.expression (.node 0), .expression (.node 1)] {} where
  member := .node 0
  scope := ⟨.sourceFile, ⟨0⟩⟩
  symbol :=
    { name := "foo", flags := SymbolFlags.localVariable.union .exported, parent := some ⟨0⟩ }
  container := { name := "main.ts", flags := .sourceFile }
  table := _
  key := _
  source := _
  answered := by rw [Program.answers_namespaceOfMark]; exact List.mem_cons_self
  exported := by decide +kernel
  bound := rfl
  held := rfl

def Setting.accessInNamespace :
    Setting.ExportAccess { program := .namespaceOfMark }
      [.expression (.node 0), .expression (.node 1)] {} where
  member := .node 1
  scope := ⟨.namespaceDeclaration, ⟨1⟩⟩
  symbol :=
    { name := "foo", flags := SymbolFlags.localVariable.union .exported, parent := some ⟨1⟩ }
  container := { name := Lua.exportsTable, flags := .namespaceDeclaration }
  table := _
  key := _
  source := _
  answered := by
    rw [Program.answers_namespaceOfMark]
    exact List.mem_cons_of_mem _ List.mem_cons_self
  exported := by decide +kernel
  bound := rfl
  held := rfl

/-- The two accesses have one key in different tables. -/
theorem Setting.export_slots_apart_namespaceOfMark :
    Setting.Reachable { program := .namespaceOfMark } {} ∧
      Setting.accessInFile.table ≠ Setting.accessInNamespace.table ∧
        Setting.accessInFile.key = Setting.accessInNamespace.key := by
  obtain ⟨inFile, inNamespace, fileKey, namespaceKey, isFileTable, isFileKey, isNamespaceTable,
      isNamespaceKey, sameText, sameKey, _⟩ :=
    Setting.export_slots_apart { program := .namespaceOfMark } .fresh
      [.expression (.node 0), .expression (.node 1)] Setting.accessInFile
      Setting.accessInNamespace
  refine ⟨.fresh, ?_, ?_⟩
  · rw [isFileTable, isNamespaceTable]
    intro same
    have alternatives := sameText.mp (congrArg Lua.Ident.text (Lua.Expr.ident.inj same))
    simp [Setting.accessInFile, Setting.accessInNamespace] at alternatives
  · rw [isFileKey, isNamespaceKey, sameKey.mpr rfl]

end NameLowering
