import Mathlib.Data.Option.Basic
import NameLowering.Proofs.Lowering.Effects

/-!
# Outcomes of lowering an expression

The use of a name turns into one of six forms of expression. Each has its conditions, and an effect
that goes with it. What is proved about the uses of names looks at the forms one by one.
-/

namespace NameLowering

/-! ## Export scopes -/

/-- A declaring chain starts with the parent, whatever is around the parent. -/
theorem SymbolTable.head?_declaringChain (table : SymbolTable) (ref : SymbolRef) :
    (table.declaringChain ref).head? = table.parent? ref := by
  rw [declaringChain, Limits.declaringChain]
  cases table.parent? ref with
  | none => rfl
  | some container => rfl

/-- An exported symbol is exported to its parent, if that exists and keeps a table. -/
theorem SymbolTable.exportScope?_eq_some_iff
    {table : SymbolTable} {ref : SymbolRef} {scope : ExportScope} :
    table.exportScope? ref = some scope ↔
      ∃ symbol container,
        table.get? ref = some symbol ∧ symbol.isExported = true ∧
          symbol.parent = some scope.container ∧
            table.get? scope.container = some container ∧
              container.containerKind? = some scope.kind := by
  unfold exportScope?
  rw [head?_declaringChain]
  cases found : table.get? ref with
  | none =>
      simp
  | some symbol =>
      simp only [parent?, found, Option.bind_eq_bind, Option.bind_some]
      cases exported : symbol.isExported with
      | false =>
          simp [guard, exported]
      | true =>
          simp only [guard, if_true, Option.pure_def, Option.bind_some, Option.bind_eq_some_iff]
          constructor
          · rintro ⟨container, isParent, declaring, held, kind, isKind, same⟩
            obtain rfl := Option.some.inj same
            exact ⟨symbol, declaring, rfl, exported, isParent, held, isKind⟩
          · rintro ⟨_, declaring, same, _, isParent, held, isKind⟩
            obtain rfl := Option.some.inj same
            exact ⟨_, isParent, declaring, held, _, isKind, rfl⟩

theorem Program.exportScopeAt?_eq_some_iff
    {program : Program} {ref : NodeRef} {scope : ExportScope} :
    program.exportScopeAt? ref = some scope ↔
      ∃ symbol container,
        program.boundSymbol? ref = some symbol ∧ symbol.isExported = true ∧
          symbol.parent = some scope.container ∧
            program.symbols.get? scope.container = some container ∧
              container.containerKind? = some scope.kind := by
  unfold exportScopeAt? boundSymbol?
  cases program.symbolAt ref with
  | none =>
      simp
  | some bound =>
      rw [Option.bind_some, Option.bind_some]
      exact SymbolTable.exportScope?_eq_some_iff

/-- A symbol that is exported to a scope exists, and so does the container. -/
theorem Program.exists_of_exportScopeAt?
    {program : Program} {ref : NodeRef} {scope : ExportScope}
    (exported : program.exportScopeAt? ref = some scope) :
    ∃ symbol container,
      program.boundSymbol? ref = some symbol ∧ symbol.isExported = true ∧
        program.symbols.get? scope.container = some container := by
  obtain ⟨symbol, container, bound, isExported, _, held, _⟩ :=
    exportScopeAt?_eq_some_iff.mp exported
  exact ⟨symbol, container, bound, isExported, held⟩

namespace Setting

/-! ## Tables of exports -/

/-- The variable that a member of a container is looked up in. -/
def containerIdent
    (setting : Setting) (ref : SymbolRef) (container : Symbol) (state : UnitState) :
    Lua.Ident where
  text := (state.names.serve setting.target (.mangle container.name)).1
  sourceName := some container.name
  symbol := some (state.numbering.see ref .absent).1

variable {setting : Setting} {ref : NodeRef} {name : SourceName} {state : UnitState}
  {scope : ExportScope} {container : Symbol}

theorem exportTable?_of_sourceFile (kind : scope.kind = .sourceFile) :
    setting.exportTable? scope ref state = some ({ text := Lua.exportsTable }, state) := by
  simp only [exportTable?, kind]

theorem tableEffect_of_sourceFile (kind : scope.kind = .sourceFile) :
    setting.tableEffect scope = {} := by
  simp only [tableEffect, kind]

theorem tableEffect_of_container
    (kind : scope.kind ≠ .sourceFile)
    (held : setting.program.symbols.get? scope.container = some container) :
    setting.tableEffect scope =
      { requests := [.mangle container.name], tracked := [scope.container] } := by
  cases found : scope.kind with
  | sourceFile =>
      contradiction
  | namespaceDeclaration | enumDeclaration =>
      simp only [tableEffect, found, held]

theorem exportTable?_of_container
    (kind : scope.kind ≠ .sourceFile)
    (held : setting.program.symbols.get? scope.container = some container) :
    setting.exportTable? scope ref state =
      some
        (setting.containerIdent scope.container container state,
          setting.apply ref (setting.tableEffect scope) state) := by
  have number :
      (state.numbering.see scope.container ref).1 =
        (state.numbering.see scope.container .absent).1 :=
    Numbering.fst_see_eq ref .absent
  rw [tableEffect_of_container kind held]
  cases found : scope.kind with
  | sourceFile =>
      contradiction
  | namespaceDeclaration | enumDeclaration =>
      simp only [exportTable?, found, containerVariable?_eq held, containerIdent, number]

/-! ## The six forms -/

/-- The expression that the use of a name may turn into in a state, with the effect of the use. -/
inductive Outcome (setting : Setting) (ref : NodeRef) (name : SourceName) (state : UnitState) :
    Lua.Expr → Effect → Prop
  | undefined
      (notExported : setting.program.exportScopeAt? ref = none)
      (isUndefined : name.keyword = some .undefinedKeyword) :
      Outcome setting ref name state .nil {}
  | replaced
      {value : Lua.Expr}
      (notExported : setting.program.exportScopeAt? ref = none)
      (defined : name.keyword ≠ some .undefinedKeyword)
      (replacement : setting.program.libraryReplacement? ref = some value) :
      Outcome setting ref name state value {}
  | refused
      (refused : (setting.program.useVerdict ref).lowerable = false) :
      Outcome setting ref name state (.ident (.placeholder (some ref)))
        (setting.useEffect ref name)
  | plain
      (notExported : setting.program.exportScopeAt? ref = none)
      (defined : name.keyword ≠ some .undefinedKeyword)
      (ordinary : setting.program.libraryReplacement? ref = none)
      (lowerable : (setting.program.useVerdict ref).lowerable = true) :
      Outcome setting ref name state (.ident (setting.variableFor ref name state).1)
        (setting.useEffect ref name)
  | fileExport
      {scope : ExportScope} {symbol : Symbol}
      (exported : setting.program.exportScopeAt? ref = some scope)
      (kind : scope.kind = .sourceFile)
      (bound : setting.program.boundSymbol? ref = some symbol)
      (lowerable : (setting.program.useVerdict ref).lowerable = true) :
      Outcome setting ref name state
        (.index (.ident { text := Lua.exportsTable }) (.text symbol.name) (some ref))
        (setting.useEffect ref name)
  | memberExport
      {scope : ExportScope} {symbol container : Symbol}
      (exported : setting.program.exportScopeAt? ref = some scope)
      (kind : scope.kind ≠ .sourceFile)
      (bound : setting.program.boundSymbol? ref = some symbol)
      (held : setting.program.symbols.get? scope.container = some container)
      (lowerable : (setting.program.useVerdict ref).lowerable = true) :
      Outcome setting ref name state
        (.index
          (.ident (setting.containerIdent scope.container container
            (setting.apply ref (setting.useEffect ref name) state)))
          (.text symbol.name) (some ref))
        ((setting.useEffect ref name).andThen
          { requests := [.mangle container.name], tracked := [scope.container] })

/-- The access to an exported variable is the field of its name in the export table. -/
theorem expressionFor_of_table
    {symbol : Symbol} {table : Lua.Ident} {later : UnitState}
    (exported : setting.program.exportScopeAt? ref = some scope)
    (lowerable : (setting.program.useVerdict ref).lowerable = true)
    (bound : setting.program.boundSymbol? ref = some symbol)
    (inTable :
      setting.exportTable? scope ref (setting.apply ref (setting.useEffect ref name) state) =
        some (table, later)) :
    (setting.expressionFor ref name state).1 =
      .index (.ident table) (.text symbol.name) (some ref) := by
  rw [expressionFor_of_exportScope exported lowerable, variableFor_eq, withSymbolName]
  simp only [bound, if_true, exportAccess, Option.getD_some, inTable]

/-- Every use of a name has one of the six forms. -/
theorem outcome_expressionFor
    (setting : Setting) (ref : NodeRef) (name : SourceName) (state : UnitState) :
    Outcome setting ref name state (setting.expressionFor ref name state).1
      (setting.expressionEffect ref name) := by
  cases exported : setting.program.exportScopeAt? ref with
  | none =>
      by_cases isUndefined : name.keyword = some .undefinedKeyword
      · simp only [expressionFor, expressionEffect, exported, isUndefined, if_true]
        exact .undefined exported isUndefined
      · cases replacement : setting.program.libraryReplacement? ref with
        | some value =>
            simp only [expressionFor, expressionEffect, exported, isUndefined, replacement,
              if_false, Option.isSome_some, if_true]
            exact .replaced exported isUndefined replacement
        | none =>
            rw [expressionFor_of_variable exported isUndefined replacement]
            simp only [expressionEffect, exported, isUndefined, replacement, if_false,
              Option.isSome_none, Bool.false_eq_true]
            cases lowerable : (setting.program.useVerdict ref).lowerable with
            | false =>
                rw [variableUsed_of_not_lowerable lowerable]
                exact .refused lowerable
            | true =>
                rw [variableUsed_of_lowerable lowerable]
                exact .plain exported isUndefined replacement lowerable
  | some scope =>
      cases lowerable : (setting.program.useVerdict ref).lowerable with
      | false =>
          rw [expressionFor_of_not_lowerable exported lowerable]
          simp only [expressionEffect, exported, lowerable, Bool.false_eq_true, if_false]
          exact .refused lowerable
      | true =>
          obtain ⟨symbol, container, bound, _, held⟩ := Program.exists_of_exportScopeAt? exported
          simp only [expressionEffect, exported, lowerable, if_true]
          by_cases kind : scope.kind = .sourceFile
          · rw [expressionFor_of_table exported lowerable bound (exportTable?_of_sourceFile kind),
              tableEffect_of_sourceFile kind, Effect.andThen_empty]
            exact .fileExport exported kind bound lowerable
          · rw [expressionFor_of_table exported lowerable bound
                (exportTable?_of_container kind held),
              tableEffect_of_container kind held]
            exact .memberExport exported kind bound held lowerable

end Setting

/-! ## Stand-ins -/

namespace Program

/-- What stands for the name of the undefined value or of a library global. -/
def IsStandIn (program : Program) (ref : NodeRef) (value : Lua.Expr) : Prop :=
  value = .nil ∨ program.libraryReplacement? ref = some value

instance (program : Program) (ref : NodeRef) (value : Lua.Expr) :
    Decidable (program.IsStandIn ref value) :=
  inferInstanceAs (Decidable (_ ∨ _))

variable {program : Program} {ref : NodeRef}

theorem forms_of_libraryReplacement?
    {value : Lua.Expr} (replacement : program.libraryReplacement? ref = some value) :
    value = .binary (.numeral "0") "/" (.numeral "0") ∨
      value = .index (.ident { text := "math" }) (.text "huge") (some ref) ∨
      value = .ident { text := "_G", sourceName := some "globalThis", source := some ref } := by
  simp only [libraryReplacement?, Option.bind_eq_bind, Option.bind_eq_some_iff] at replacement
  obtain ⟨_, _, _, _, global, _, stands⟩ := replacement
  unfold Lua.Expr.ofGlobal? at stands
  split at stands
  · exact Or.inl (Option.some.inj stands).symm
  · exact Or.inr (Or.inl (Option.some.inj stands).symm)
  · exact Or.inr (Or.inr (Option.some.inj stands).symm)
  · contradiction

/-- A placeholder stands for no name of the library. -/
theorem not_isStandIn_placeholder (source : Option NodeRef) :
    ¬ program.IsStandIn ref (.ident (.placeholder source)) := by
  rintro (isNil | replacement)
  · contradiction
  · rcases forms_of_libraryReplacement? replacement with quotient | huge | globals
    · contradiction
    · contradiction
    · have sameText : Lua.placeholderName = "_G" :=
        congrArg Lua.Ident.text (Lua.Expr.ident.inj globals)
      exact absurd sameText (by decide)

/-- The fields of export tables stand for no name of the library. -/
theorem not_isStandIn_index
    {table : Lua.Ident} {key : Lua.Expr} {source : Option NodeRef}
    (ofFile : table.symbol = none → table.text = Lua.exportsTable) :
    ¬ program.IsStandIn ref (.index (.ident table) key source) := by
  rintro (isNil | replacement)
  · contradiction
  · rcases forms_of_libraryReplacement? replacement with quotient | huge | globals
    · contradiction
    · obtain rfl := Lua.Expr.ident.inj (Lua.Expr.index.inj huge).1
      exact absurd (ofFile rfl) (by decide)
    · contradiction

end Program

namespace Setting.Outcome

variable {setting : Setting} {ref : NodeRef} {name : SourceName} {state : UnitState}
  {value : Lua.Expr} {effect : Effect}

/-- A use that nothing stands in for has the effect of a variable, to which that of an export table
may be added, and turns into a placeholder just if it cannot be lowered. -/
theorem of_not_isStandIn
    (outcome : Outcome setting ref name state value effect)
    (ordinary : ¬ setting.program.IsStandIn ref value) :
    (∃ later, effect = (setting.useEffect ref name).andThen later ∧ later.problems = []) ∧
      if (setting.program.useVerdict ref).lowerable = true then
        ∀ ident, value = .ident ident → ident.isPlaceholder = false
      else
        value = .ident (.placeholder (some ref)) := by
  cases outcome with
  | undefined notExported isUndefined =>
      exact absurd (Or.inl rfl) ordinary
  | replaced notExported defined replacement =>
      exact absurd (Or.inr replacement) ordinary
  | refused refused =>
      simp only [refused, Bool.false_eq_true, if_false]
      exact ⟨⟨{}, (Effect.andThen_empty _).symm, rfl⟩, trivial⟩
  | plain notExported defined ordinaryName lowerable =>
      simp only [lowerable, if_true]
      refine ⟨⟨{}, (Effect.andThen_empty _).symm, rfl⟩, ?_⟩
      intro ident same
      obtain rfl := Lua.Expr.ident.inj same
      simp [variableFor_eq, Lua.Ident.isPlaceholder]
  | fileExport exported kind bound lowerable =>
      simp only [lowerable, if_true]
      refine ⟨⟨{}, (Effect.andThen_empty _).symm, rfl⟩, ?_⟩
      intro ident same
      contradiction
  | memberExport exported kind bound held lowerable =>
      simp only [lowerable, if_true]
      refine ⟨⟨_, rfl, rfl⟩, ?_⟩
      intro ident same
      contradiction

/-- A stand-in has no effect. -/
theorem effect_of_isStandIn
    (outcome : Outcome setting ref name state value effect)
    (standIn : setting.program.IsStandIn ref value) :
    effect = {} := by
  cases outcome with
  | undefined notExported isUndefined =>
      rfl
  | replaced notExported defined replacement =>
      rfl
  | refused refused =>
      exact absurd standIn (Program.not_isStandIn_placeholder _)
  | plain notExported defined ordinary lowerable =>
      rcases standIn with isNil | replacement
      · contradiction
      · rw [ordinary] at replacement
        contradiction
  | fileExport exported kind bound lowerable =>
      exact absurd standIn (Program.not_isStandIn_index fun _ => rfl)
  | memberExport exported kind bound held lowerable =>
      refine absurd standIn (Program.not_isStandIn_index fun unnumbered => ?_)
      contradiction

end Setting.Outcome

end NameLowering
