import NameLowering.Proofs.Lowering.Outcomes
import NameLowering.Proofs.Lowering.Reachable

/-!
# Names of containers

A member of a namespace or enumeration is a field of the variable that holds the container, so the
access to the member should name the variable that the declaration of the container introduces. The
two numbers always agree. The two names agree except for one sort of container: the declaration
keeps a name because the container is ambient or exported, while the access escapes it.
-/

namespace NameLowering

/-! ## Output names of mangled names -/

/-- Mangling a name later on yields the output name that the name was given before, unless only the
mangled name is escaped. -/
theorem NameTable.mangle_eq_outputName_iff
    {target : Target} {escape : Bool} {name : String} {table later : NameTable}
    (consistent : later.Consistent)
    (extension : (table.outputName target escape name).2.Extends later)
    (unsafeOnly : escape = true → target.mustEscape name = true) :
    (later.mangle target name).1 = (table.outputName target escape name).1 ↔
      (target.mustEscape name = true → escape = true) := by
  cases mustEscape : target.mustEscape name with
  | false =>
      have kept : escape = false := by
        simpa [mustEscape] using unsafeOnly
      simp [mangle, mustEscape, kept, outputName]
  | true =>
      cases escape with
      | true =>
          simp [mangle, mustEscape, outputName_stable extension]
      | false =>
          have longer : name.length < (later.assign target name).1.length :=
            (consistent.assign target name).longer (assigned?_assign_self target name later)
          have different : (later.assign target name).1 ≠ name := by
            intro same
            rw [same] at longer
            exact Nat.lt_irrefl _ longer
          simpa [mangle, mustEscape, outputName] using different

/-! ## Containers -/

/-- A container has a name that would have to be escaped, but its declaration keeps the name: it is
ambient, and the target accepts the name, or it is a field of a table itself. -/
def Symbol.KeepsUnsafeName (symbol : Symbol) (target : Target) : Prop :=
  target.mustEscape symbol.name = true ∧
    ((symbol.isAmbient = true ∧ target.accepts symbol.name = true) ∨
      (symbol.isAmbient = false ∧ symbol.isExported = true))

theorem Symbol.keepsUnsafeName_iff {symbol : Symbol} {target : Target} :
    symbol.KeepsUnsafeName target ↔
      target.mustEscape symbol.name = true ∧ symbol.mustEscape target = false := by
  unfold KeepsUnsafeName Symbol.mustEscape
  refine and_congr_right fun unsafeName => ?_
  cases symbol.isAmbient with
  | true => simp
  | false => simp [unsafeName]

/-- Only names that are unsafe are escaped. -/
theorem Symbol.mustEscape_name
    {symbol : Symbol} {target : Target} (escapes : symbol.mustEscape target = true) :
    target.mustEscape symbol.name = true := by
  unfold Symbol.mustEscape at escapes
  cases ambient : symbol.isAmbient with
  | true =>
      have refused : target.accepts symbol.name = false := by
        simpa [ambient] using escapes
      simp [Target.mustEscape, refused]
  | false =>
      simp only [ambient, Bool.false_eq_true, if_false, Bool.and_eq_true] at escapes
      exact escapes.1

/-- A name declares the namespace or enumeration that keeps the member which another name refers
to. -/
structure Program.DeclaresContainerOf
    (program : Program) (declared member : NodeRef) (container : Symbol) : Prop where
  exported :
    ∃ scope, program.exportScopeAt? member = some scope ∧ scope.kind ≠ .sourceFile ∧
      program.symbolAt declared = some scope.container ∧
        program.symbols.get? scope.container = some container
  named :
    ∃ name, program.tree.name? declared = some name ∧ name.text = container.name
  referred : (program.tree.name? member).isSome = true

namespace Setting

variable {setting : Setting} {declared member : NodeRef} {name memberName : SourceName}
  {state moment later : UnitState} {scope : ExportScope} {container : Symbol}

theorem escapes_of_bound
    (bound : setting.program.symbolAt declared = some scope.container)
    (held : setting.program.symbols.get? scope.container = some container) :
    setting.escapes declared = container.mustEscape setting.target := by
  simp only [escapes, bound, escapesSymbol, held, Option.any_some]

/-- The variable that is accessed has the number that the declaration got before. -/
theorem containerIdent_symbol
    (bound : setting.program.symbolAt declared = some scope.container)
    (extension :
      (setting.apply declared (setting.variableEffect declared name) moment).Extends later) :
    (setting.containerIdent scope.container container later).symbol =
      (setting.variableFor declared name moment).1.symbol := by
  have numbering := extension.numbering
  simp only [apply, variableEffect, bound, Option.toList_some] at numbering
  rw [variableFor_eq]
  simp only [containerIdent, bound, Option.map_some]
  rw [Numbering.see_stable numbering]

/-- The variable that is accessed has the name that the declaration got before, unless the
declaration keeps an unsafe name. -/
theorem containerIdent_text_eq_iff
    (bound : setting.program.symbolAt declared = some scope.container)
    (held : setting.program.symbols.get? scope.container = some container)
    (sameText : name.text = container.name) (consistent : later.names.Consistent)
    (extension :
      (setting.apply declared (setting.variableEffect declared name) moment).Extends later) :
    (setting.containerIdent scope.container container later).text =
        (setting.variableFor declared name moment).1.text ↔
      ¬ container.KeepsUnsafeName setting.target := by
  have names := extension.names
  simp only [apply, variableEffect, NameTable.serveAll, serve_variableRequest, sameText,
    escapes_of_bound bound held] at names
  rw [variableFor_eq, serve_variableRequest, sameText, escapes_of_bound bound held]
  change (later.names.mangle setting.target container.name).1 = _ ↔ _
  rw [NameTable.mangle_eq_outputName_iff consistent names Symbol.mustEscape_name,
    Symbol.keepsUnsafeName_iff, not_and, Bool.not_eq_false]

/-- In a run of calls, the access to a member and the declaration of its container agree on the
number of the container's variable, whichever comes first. They agree on its name exactly if the
declaration keeps no unsafe name. A use of the member that cannot be lowered is no access. -/
theorem container_names_eq_iff
    (setting : Setting) (reachable : setting.Reachable state) (calls : List LoweringCall) :
    ∀ access ∈ setting.answers calls state, ∀ declaration ∈ setting.answers calls state,
      ∀ declared member container,
        access.call = .expression member → declaration.call = .declaration declared →
          setting.program.DeclaresContainerOf declared member container →
            ∃ value ident, access.answer = .expr (.ok value) ∧
              declaration.answer = .ident (.ok ident) ∧
                if (setting.program.useVerdict member).lowerable then
                  ∃ table key, value = .index (.ident table) (.text key) (some member) ∧
                    table.symbol = ident.symbol ∧
                      (table.text = ident.text ↔ ¬ container.KeepsUnsafeName setting.target)
                else
                  value = .ident (.placeholder (some member)) := by
  intro access accessMember declaration declarationMember declared member container accessCall
    declarationCall declares
  obtain ⟨scope, exported, kind, bound, held⟩ := declares.exported
  obtain ⟨name, named, sameText⟩ := declares.named
  obtain ⟨memberName, memberNamed⟩ := Option.isSome_iff_exists.mp declares.referred
  have accessAnswer := answer_eq_perform_performAll accessMember
  rw [accessCall, perform_of_name (Program.expectName_eq_ok_iff.mpr memberNamed)] at accessAnswer
  obtain ⟨moment, declarationAnswer, extension⟩ := exists_moment_of_mem_answers declarationMember
  rw [declarationCall, perform_of_name (Program.expectName_eq_ok_iff.mpr named)]
    at declarationAnswer extension
  refine ⟨_, _, accessAnswer, declarationAnswer, ?_⟩
  cases lowerable : (setting.program.useVerdict member).lowerable with
  | false =>
      rw [expressionFor_of_not_lowerable exported lowerable]
      rfl
  | true =>
      -- The access is made where the declaration is known and the use of the member is noted.
      have grows :
          (setting.performAll calls state).Extends
            (setting.apply member (setting.useEffect member memberName)
              (setting.performAll calls state)) :=
        extends_apply _
      have known := extension.trans grows
      have consistent :
          (setting.apply member (setting.useEffect member memberName)
            (setting.performAll calls state)).names.Consistent := by
        obtain ⟨requests, history⟩ := (reachable.performAll calls).exists_history
        simp only [apply, history]
        exact (NameTable.consistent_empty.serveAll requests).serveAll _
      obtain ⟨symbol, _, memberBound, _⟩ := Program.exists_of_exportScopeAt? exported
      rw [expressionFor_of_table exported lowerable memberBound
        (exportTable?_of_container kind held)]
      exact ⟨_, _, rfl, containerIdent_symbol bound known,
        containerIdent_text_eq_iff bound held sameText consistent known⟩

end Setting

/-! ## An ambient container -/

/-- An ambient namespace with the name of a standard global, and a reference to a member of it. -/
def Program.ambientContainer : Program :=
  let (member, program) := Program.addIdentifier { fileName := "main.ts" } "foo" 0
  let (declared, program) := program.addIdentifier "type" 4
  let (container, symbols) :=
    program.symbols.add
      { name := "type", flags := SymbolFlags.namespaceDeclaration.union .ambient }
  let (symbol, symbols) :=
    symbols.add
      { name := "foo", flags := SymbolFlags.localVariable.union .exported, parent := container }
  ({ program with symbols }.bind member symbol).bind declared container

theorem Program.ambientContainer_declares :
    Program.ambientContainer.DeclaresContainerOf (.node 1) (.node 0)
      { name := "type", flags := SymbolFlags.namespaceDeclaration.union .ambient } where
  exported := ⟨⟨.namespaceDeclaration, ⟨0⟩⟩, by decide +kernel, by decide, rfl, rfl⟩
  named := ⟨{ text := "type" }, rfl, rfl⟩
  referred := rfl

/-- The access escapes the name that the declaration keeps. -/
theorem Program.answers_ambientContainer :
    Setting.answers { program := .ambientContainer }
        [.expression (.node 0), .declaration (.node 1)] {} =
      [⟨.expression (.node 0), .expr (.ok (.index
          (.ident { text := "____type", sourceName := some "type", symbol := some ⟨2⟩ })
          (.text "foo") (some (.node 0))))⟩,
        ⟨.declaration (.node 1), .ident (.ok
          { text := "type", sourceName := some "type", symbol := some ⟨2⟩,
            source := some (.node 1) })⟩] := by
  decide +kernel

theorem Setting.container_names_differ :
    ¬ ∀ (setting : Setting) (state : UnitState) (calls : List LoweringCall),
      setting.Reachable state →
        ∀ access ∈ setting.answers calls state, ∀ declaration ∈ setting.answers calls state,
          ∀ declared member container table key source ident,
            access.call = .expression member → declaration.call = .declaration declared →
              setting.program.DeclaresContainerOf declared member container →
                access.answer = .expr (.ok (.index (.ident table) key source)) →
                  declaration.answer = .ident (.ok ident) → table.text = ident.text := by
  intro agree
  have same := agree { program := .ambientContainer } {}
    [.expression (.node 0), .declaration (.node 1)] .fresh
  rw [Program.answers_ambientContainer] at same
  have equal := same _ List.mem_cons_self _ (List.mem_cons_of_mem _ List.mem_cons_self) _ _ _ _ _ _
    _ rfl rfl Program.ambientContainer_declares rfl rfl
  exact absurd equal (by decide)

/-- The ambient namespace keeps an unsafe name. -/
theorem Setting.container_names_eq_iff_ambientContainer :
    Setting.Reachable { program := .ambientContainer } {} ∧
      Program.ambientContainer.DeclaresContainerOf (.node 1) (.node 0)
        { name := "type", flags := SymbolFlags.namespaceDeclaration.union .ambient } ∧
      Symbol.KeepsUnsafeName
        { name := "type", flags := SymbolFlags.namespaceDeclaration.union .ambient }
        .universal := by
  refine ⟨.fresh, Program.ambientContainer_declares, ?_⟩
  have exactly := Setting.container_names_eq_iff { program := .ambientContainer } .fresh
    [.expression (.node 0), .declaration (.node 1)]
  rw [Program.answers_ambientContainer] at exactly
  obtain ⟨value, ident, accessed, introduced, alternatives⟩ :=
    exactly _ List.mem_cons_self _ (List.mem_cons_of_mem _ List.mem_cons_self) _ _ _ rfl rfl
      Program.ambientContainer_declares
  obtain rfl := Except.ok.inj (LoweringAnswer.expr.inj accessed)
  obtain rfl := Except.ok.inj (LoweringAnswer.ident.inj introduced)
  have lowerable :
      (Program.ambientContainer.useVerdict (.node 0)).lowerable = true := by
    decide +kernel
  simp only [lowerable, if_true] at alternatives
  obtain ⟨table, key, isAccess, _, namesAgree⟩ := alternatives
  obtain ⟨sameTable, _, _⟩ := Lua.Expr.index.inj isAccess
  obtain rfl := Lua.Expr.ident.inj sameTable
  by_contra keeps
  exact absurd (namesAgree.mpr keeps) (by decide)

end NameLowering
