import NameLowering.Program.Build
import NameLowering.Proofs.Lowering.Outcomes

/-!
# Precedence among the meanings of a name

A name may at once be bound to an exported symbol, spell the undefined value and be that of a library
global. What its use becomes is decided in a fixed order: fields of export tables come first, then
the undefined value, then library globals, and variables last. Whether a name is a field depends on
its symbol and the parent of that alone, so it does not matter where the chain of containers around
the parent leads.
-/

namespace NameLowering

/-! ## Fields of export tables -/

/-- A name is bound to an exported symbol, and the parent of the symbol exists and keeps a table of
exports. -/
structure Program.IsField (program : Program) (ref : NodeRef) (symbol : Symbol)
    (parent : SymbolRef) (container : Symbol) : Prop where
  bound : program.boundSymbol? ref = some symbol
  exported : symbol.isExported = true
  inside : symbol.parent = some parent
  held : program.symbols.get? parent = some container
  keepsTable : container.flags.contains .sourceFile = true ∨
    container.flags.contains .namespaceDeclaration = true ∨
      container.flags.contains .enumDeclaration = true

theorem Symbol.containerKind?_eq_none_iff {symbol : Symbol} :
    symbol.containerKind? = none ↔
      ¬ (symbol.flags.contains .sourceFile = true ∨
        symbol.flags.contains .namespaceDeclaration = true ∨
          symbol.flags.contains .enumDeclaration = true) := by
  unfold containerKind?
  by_cases isFile : symbol.flags.contains .sourceFile = true
  · simp [isFile]
  · by_cases isNamespace : symbol.flags.contains .namespaceDeclaration = true
    · simp [isFile, isNamespace]
    · by_cases isEnum : symbol.flags.contains .enumDeclaration = true
      · simp [isFile, isNamespace, isEnum]
      · simp [isFile, isNamespace, isEnum]

/-- What is a file, whatever else it is, counts as a file. -/
theorem Symbol.kind_eq_sourceFile_iff
    {symbol : Symbol} {kind : ContainerKind} (isKind : symbol.containerKind? = some kind) :
    kind = .sourceFile ↔ symbol.flags.contains .sourceFile = true := by
  unfold containerKind? at isKind
  by_cases isFile : symbol.flags.contains .sourceFile = true
  · rw [if_pos isFile, Option.some.injEq] at isKind
    exact iff_of_true isKind.symm isFile
  · rw [if_neg isFile] at isKind
    refine iff_of_false ?_ isFile
    rintro rfl
    split at isKind
    · contradiction
    · split at isKind <;> contradiction

namespace Program

variable {program : Program} {ref : NodeRef} {symbol container : Symbol} {parent : SymbolRef}

theorem IsField.exists_exportScopeAt? (field : program.IsField ref symbol parent container) :
    ∃ kind, program.exportScopeAt? ref = some { kind, container := parent } ∧
      (kind = .sourceFile ↔ container.flags.contains .sourceFile = true) := by
  cases isKind : container.containerKind? with
  | none =>
      exact absurd field.keepsTable (Symbol.containerKind?_eq_none_iff.mp isKind)
  | some kind =>
      refine ⟨kind, ?_, Symbol.kind_eq_sourceFile_iff isKind⟩
      exact exportScopeAt?_eq_some_iff.mpr
        ⟨symbol, container, field.bound, field.exported, field.inside, field.held, isKind⟩

theorem exists_isField {scope : ExportScope} (exported : program.exportScopeAt? ref = some scope) :
    ∃ symbol container, program.IsField ref symbol scope.container container := by
  obtain ⟨symbol, container, bound, isExported, inside, held, isKind⟩ :=
    exportScopeAt?_eq_some_iff.mp exported
  refine ⟨symbol, container, bound, isExported, inside, held, ?_⟩
  by_contra keepsNone
  rw [Symbol.containerKind?_eq_none_iff.mpr keepsNone] at isKind
  contradiction

theorem exportScopeAt?_eq_none_iff :
    program.exportScopeAt? ref = none ↔
      ∀ symbol parent container, ¬ program.IsField ref symbol parent container := by
  constructor
  · intro notExported symbol parent container field
    obtain ⟨_, exported, _⟩ := field.exists_exportScopeAt?
    rw [notExported] at exported
    contradiction
  · intro noField
    cases exported : program.exportScopeAt? ref with
    | none =>
        rfl
    | some scope =>
        obtain ⟨symbol, container, field⟩ := exists_isField exported
        exact absurd field (noField symbol scope.container container)

/-- A name is bound to a symbol of the standard library, and something else stands for that. -/
theorem libraryReplacement?_eq_some_iff {name : SourceName} {value : Lua.Expr}
    (named : program.tree.name? ref = some name) :
    program.libraryReplacement? ref = some value ↔
      ∃ symbol, program.boundSymbol? ref = some symbol ∧ symbol.isStandardLibrary = true ∧
        Lua.Expr.ofGlobal? ref name.text = some value := by
  unfold libraryReplacement?
  cases bound : program.boundSymbol? ref with
  | none =>
      simp
  | some symbol =>
      cases isLibrary : symbol.isStandardLibrary with
      | false =>
          simp [guard, isLibrary]
      | true =>
          simp [guard, isLibrary, named]

end Program

/-! ## The order of precedence -/

namespace Setting

/-- What the use of a name becomes, and what it leaves behind. The first that applies decides. -/
inductive Decision (setting : Setting) (ref : NodeRef) (name : SourceName) (state : UnitState) :
    Lua.Expr → UnitState → Prop
  /-- A field whose use is refused. -/
  | refusedField
      {symbol container : Symbol} {parent : SymbolRef} {later : UnitState}
      (field : setting.program.IsField ref symbol parent container)
      (refused : setting.lowerVariable ref state = (.ok (.placeholder (some ref)), later)) :
      Decision setting ref name state (.ident (.placeholder (some ref))) later
  /-- A field of the exports of a file. -/
  | fileField
      {symbol container : Symbol} {parent : SymbolRef} {ident : Lua.Ident} {later : UnitState}
      (field : setting.program.IsField ref symbol parent container)
      (isFile : container.flags.contains .sourceFile = true)
      (used : setting.lowerVariable ref state = (.ok ident, later))
      (notRefused : ident.isPlaceholder = false) :
      Decision setting ref name state
        (.index (.ident { text := Lua.exportsTable }) (.text symbol.name) (some ref)) later
  /-- A field of a namespace or enumeration, which is referred to as well. -/
  | memberField
      {symbol container : Symbol} {parent : SymbolRef} {ident : Lua.Ident} {later : UnitState}
      (field : setting.program.IsField ref symbol parent container)
      (notFile : container.flags.contains .sourceFile = false)
      (used : setting.lowerVariable ref state = (.ok ident, later))
      (notRefused : ident.isPlaceholder = false) :
      Decision setting ref name state
        (.index
          (.ident
            { text := (later.names.mangle setting.target container.name).1
              sourceName := some container.name
              symbol := some (later.numbering.see parent ref).1 })
          (.text symbol.name) (some ref))
        (UnitState.track
          { later with names := (later.names.mangle setting.target container.name).2 }
          parent ref).2
  | undefined
      (noField : ∀ symbol parent container, ¬ setting.program.IsField ref symbol parent container)
      (isUndefined : name.keyword = some .undefinedKeyword) :
      Decision setting ref name state .nil state
  | library
      {symbol : Symbol} {value : Lua.Expr}
      (noField : ∀ symbol parent container, ¬ setting.program.IsField ref symbol parent container)
      (defined : name.keyword ≠ some .undefinedKeyword)
      (bound : setting.program.boundSymbol? ref = some symbol)
      (isLibrary : symbol.isStandardLibrary = true)
      (stands : Lua.Expr.ofGlobal? ref name.text = some value) :
      Decision setting ref name state value state
  | plain
      {ident : Lua.Ident} {later : UnitState}
      (noField : ∀ symbol parent container, ¬ setting.program.IsField ref symbol parent container)
      (defined : name.keyword ≠ some .undefinedKeyword)
      (ordinary : ∀ symbol, setting.program.boundSymbol? ref = some symbol →
        symbol.isStandardLibrary = true → Lua.Expr.ofGlobal? ref name.text = none)
      (used : setting.lowerVariable ref state = (.ok ident, later)) :
      Decision setting ref name state (.ident ident) later

variable {setting : Setting} {ref : NodeRef} {name : SourceName} {state later : UnitState}
  {ident : Lua.Ident}

theorem lowerVariable_of_name
    (named : setting.program.tree.name? ref = some name) (state : UnitState) :
    setting.lowerVariable ref state =
      (.ok (setting.variableUsed ref name state).1, (setting.variableUsed ref name state).2) := by
  simp only [lowerVariable, atName, Program.expectName_eq_ok_iff.mpr named]

theorem lowerExpression_of_name
    (named : setting.program.tree.name? ref = some name) (state : UnitState) :
    setting.lowerExpression ref state =
      (.ok (setting.expressionFor ref name state).1,
        (setting.expressionFor ref name state).2) := by
  simp only [lowerExpression, atName, Program.expectName_eq_ok_iff.mpr named]

theorem variableUsed_of_lowerVariable
    (named : setting.program.tree.name? ref = some name)
    (used : setting.lowerVariable ref state = (.ok ident, later)) :
    setting.variableUsed ref name state = (ident, later) := by
  rw [lowerVariable_of_name named, Prod.mk.injEq, Except.ok.injEq] at used
  exact Prod.ext used.1 used.2

theorem exportable_of_not_refused
    (used : setting.variableUsed ref name state = (ident, later))
    (notRefused : ident.isPlaceholder = false) :
    ident.exportable = true ∧ ident.source = some ref := by
  have lowerable : (setting.program.useVerdict ref).lowerable = true := by
    have isPlaceholder := setting.isPlaceholder_variableUsed ref name state
    rw [used, notRefused] at isPlaceholder
    simpa using isPlaceholder.symm
  rw [variableUsed_of_lowerable lowerable, variableFor_eq, Prod.mk.injEq] at used
  rw [← used.1]
  exact ⟨rfl, rfl⟩

theorem expressionFor_of_exportScopeAt? {scope : ExportScope}
    (exported : setting.program.exportScopeAt? ref = some scope)
    (used : setting.variableUsed ref name state = (ident, later)) :
    setting.expressionFor ref name state =
      setting.exportAccess (setting.withSymbolName ref ident) scope later := by
  simp only [expressionFor, exported, used]

/-- The access to an exported variable is the field of its table under the name of its symbol. -/
theorem exportAccess_withSymbolName
    {symbol : Symbol} {scope : ExportScope} {table : Lua.Ident} {final : UnitState}
    (bound : setting.program.boundSymbol? ref = some symbol)
    (exportable : ident.exportable = true) (source : ident.source = some ref)
    (inTable : setting.exportTable? scope ref later = some (table, final)) :
    setting.exportAccess (setting.withSymbolName ref ident) scope later =
      (.index (.ident table) (.text symbol.name) (some ref), final) := by
  simp only [withSymbolName, bound, exportable, if_true, exportAccess, source, Option.getD_some,
    inTable]

theorem exportTable?_of_member
    {container : Symbol} {parent : SymbolRef} {kind : ContainerKind}
    (notFile : kind ≠ .sourceFile)
    (held : setting.program.symbols.get? parent = some container) :
    setting.exportTable? { kind, container := parent } ref later =
      some
        ({ text := (later.names.mangle setting.target container.name).1
           sourceName := some container.name
           symbol := some (later.numbering.see parent ref).1 },
          (UnitState.track
            { later with names := (later.names.mangle setting.target container.name).2 }
            parent ref).2) := by
  cases kind with
  | sourceFile =>
      contradiction
  | namespaceDeclaration | enumDeclaration =>
      simp only [exportTable?, containerVariable?, held, Option.bind_eq_bind, Option.bind_some]
      rfl

/-- Each decision is the one that is taken where its conditions hold. -/
theorem lowerExpression_of_decision {value : Lua.Expr}
    (named : setting.program.tree.name? ref = some name)
    (decision : setting.Decision ref name state value later) :
    setting.lowerExpression ref state = (.ok value, later) := by
  rw [lowerExpression_of_name named]
  cases decision with
  | refusedField field refused =>
      obtain ⟨kind, exported, _⟩ := field.exists_exportScopeAt?
      have used := variableUsed_of_lowerVariable named refused
      rw [expressionFor_of_exportScopeAt? exported used, withSymbolName_placeholder,
        exportAccess_of_not_exportable rfl]
  | @fileField _ _ parent _ _ field isFile lowered notRefused =>
      obtain ⟨kind, exported, isFileIff⟩ := field.exists_exportScopeAt?
      have used := variableUsed_of_lowerVariable named lowered
      have inTable :
          setting.exportTable? { kind, container := parent } ref later =
            some ({ text := Lua.exportsTable }, later) :=
        exportTable?_of_sourceFile (isFileIff.mpr isFile)
      obtain ⟨exportable, source⟩ := exportable_of_not_refused used notRefused
      rw [expressionFor_of_exportScopeAt? exported used,
        exportAccess_withSymbolName field.bound exportable source inTable]
  | memberField field notFile lowered notRefused =>
      obtain ⟨kind, exported, isFileIff⟩ := field.exists_exportScopeAt?
      have used := variableUsed_of_lowerVariable named lowered
      have isMember : kind ≠ .sourceFile := by
        intro isFile
        rw [isFileIff.mp isFile] at notFile
        contradiction
      obtain ⟨exportable, source⟩ := exportable_of_not_refused used notRefused
      rw [expressionFor_of_exportScopeAt? exported used,
        exportAccess_withSymbolName field.bound exportable source
          (exportTable?_of_member isMember field.held)]
  | undefined noField isUndefined =>
      have notExported := Program.exportScopeAt?_eq_none_iff.mpr noField
      simp only [expressionFor, notExported, isUndefined, if_true]
  | library noField defined bound isLibrary stands =>
      have notExported := Program.exportScopeAt?_eq_none_iff.mpr noField
      have replaced :=
        (Program.libraryReplacement?_eq_some_iff named).mpr ⟨_, bound, isLibrary, stands⟩
      simp only [expressionFor, notExported, defined, if_false, replaced]
  | plain noField defined ordinary lowered =>
      have notExported := Program.exportScopeAt?_eq_none_iff.mpr noField
      have used := variableUsed_of_lowerVariable named lowered
      have notReplaced : setting.program.libraryReplacement? ref = none := by
        cases replaced : setting.program.libraryReplacement? ref with
        | none =>
            rfl
        | some value =>
            obtain ⟨symbol, bound, isLibrary, stands⟩ :=
              (Program.libraryReplacement?_eq_some_iff named).mp replaced
            rw [ordinary symbol bound isLibrary] at stands
            contradiction
      simp only [expressionFor, notExported, defined, if_false, notReplaced, used]

/-- There is a decision for every use of a name. -/
theorem exists_decision
    (named : setting.program.tree.name? ref = some name) (state : UnitState) :
    ∃ value later, setting.Decision ref name state value later := by
  have lowered := lowerVariable_of_name named state
  cases exported : setting.program.exportScopeAt? ref with
  | some scope =>
      obtain ⟨symbol, container, field⟩ := Program.exists_isField exported
      cases lowerable : (setting.program.useVerdict ref).lowerable with
      | false =>
          rw [variableUsed_of_not_lowerable lowerable] at lowered
          exact ⟨_, _, .refusedField field lowered⟩
      | true =>
          have notRefused : (setting.variableUsed ref name state).1.isPlaceholder = false := by
            rw [isPlaceholder_variableUsed, lowerable]
            rfl
          cases isFile : container.flags.contains .sourceFile with
          | true =>
              exact ⟨_, _, .fileField field isFile lowered notRefused⟩
          | false =>
              exact ⟨_, _, .memberField field isFile lowered notRefused⟩
  | none =>
      have noField := Program.exportScopeAt?_eq_none_iff.mp exported
      by_cases isUndefined : name.keyword = some .undefinedKeyword
      · exact ⟨_, _, .undefined noField isUndefined⟩
      · cases replaced : setting.program.libraryReplacement? ref with
        | some value =>
            obtain ⟨symbol, bound, isLibrary, stands⟩ :=
              (Program.libraryReplacement?_eq_some_iff named).mp replaced
            exact ⟨_, _, .library noField isUndefined bound isLibrary stands⟩
        | none =>
            refine ⟨_, _, .plain noField isUndefined ?_ lowered⟩
            intro symbol bound isLibrary
            cases stands : Lua.Expr.ofGlobal? ref name.text with
            | none =>
                rfl
            | some value =>
                rw [(Program.libraryReplacement?_eq_some_iff named).mpr
                  ⟨symbol, bound, isLibrary, stands⟩] at replaced
                contradiction

end Setting

/-! ## A name that is everything at once -/

/-- A name that spells a library global and the undefined value. It is bound to an exported symbol of
another name, whose parent is a namespace inside of itself. -/
def Program.everythingAtOnce : Program :=
  let (reference, program) :=
    Program.addName { fileName := "main.ts" }
      { text := "NaN", keyword := some .undefinedKeyword } 0
  let (container, symbols) :=
    program.symbols.add
      { name := "type", flags := SymbolFlags.enumDeclaration.union .namespaceDeclaration
        parent := some ⟨0⟩ }
  let (symbol, symbols) :=
    symbols.add
      { name := "end", flags := SymbolFlags.standardLibrary.union .exported, parent := container }
  { program with symbols }.bind reference symbol

end NameLowering
